import Floppix.Lib.Worklist

/-! # The order of a list that grows

New items go to the back of the list, so a loop that gets to its end has worked on the
items level by level: those it started with, what these appended, what that appended,
and so on until nothing was appended.
-/

namespace Worklist

variable {β : Type*} {expand : β → List β}

/-- A queue, and the order in which it is worked off until it is empty. -/
inductive Worked (expand : β → List β) : List β → List β → Prop where
  | nil : Worked expand [] []
  | cons {x : β} {xs order : List β} : Worked expand (xs ++ expand x) order →
      Worked expand (x :: xs) (x :: order)

/-- What the items of the level before have appended. -/
def level (expand : β → List β) (xs : List β) : Nat → List β
  | 0 => xs
  | n + 1 => (level expand xs n).flatMap expand

theorem level_succ (xs : List β) (n : Nat) :
    level expand xs (n + 1) = level expand (xs.flatMap expand) n := by
  induction n with
  | zero => rfl
  | succ n ih =>
      show (level expand xs (n + 1)).flatMap expand = _
      rw [ih]
      rfl

/-- The items in front are worked off first, and what they append waits behind the rest. -/
theorem Worked.front {xs rest order : List β} (h : Worked expand (xs ++ rest) order) :
    ∃ behind, order = xs ++ behind ∧ Worked expand (rest ++ xs.flatMap expand) behind := by
  induction xs generalizing rest order with
  | nil =>
      refine ⟨order, rfl, ?_⟩
      rwa [List.flatMap_nil, List.append_nil]
  | cons x xs ih =>
      cases h with
      | cons h =>
          have hnext : Worked expand (xs ++ (rest ++ expand x)) _ := List.append_assoc .. ▸ h
          obtain ⟨behind, horder, hbehind⟩ := ih hnext
          refine ⟨behind, by rw [horder]; rfl, ?_⟩
          rwa [List.flatMap_cons, ← List.append_assoc]

/-- A queue is worked off level by level, down to a level that is empty. -/
theorem Worked.levels {xs order : List β} (h : Worked expand xs order) :
    ∃ depth, level expand xs depth = [] ∧
      order = (List.range depth).flatMap (level expand xs) := by
  induction hlen : order.length using Nat.strongRecOn generalizing xs order with
  | _ len ih =>
      cases xs with
      | nil =>
          cases h
          exact ⟨0, rfl, rfl⟩
      | cons x xs =>
          have hsplit : Worked expand ((x :: xs) ++ []) order := by rwa [List.append_nil]
          obtain ⟨behind, horder, hbehind⟩ := hsplit.front
          rw [List.nil_append] at hbehind
          have hshort : behind.length < len := by
            rw [← hlen, horder, List.length_append, List.length_cons]
            omega
          obtain ⟨depth, hempty, hlevels⟩ := ih _ hshort hbehind rfl
          refine ⟨depth + 1, by rw [level_succ, hempty], ?_⟩
          have hshift : level expand ((x :: xs).flatMap expand) =
              fun n => level expand (x :: xs) (n + 1) := funext fun n => (level_succ _ n).symm
          have hfront : (List.range (depth + 1)).flatMap (level expand (x :: xs)) = (x :: xs) ++
              (List.range depth).flatMap fun n => level expand (x :: xs) (n + 1) := by
            rw [List.range_succ_eq_map, List.flatMap_cons, List.flatMap_map]
            rfl
          rw [hfront, horder, hlevels, hshift]

theorem level_add_nil {xs : List β} {n : Nat} (h : level expand xs n = []) (k : Nat) :
    level expand xs (n + k) = [] := by
  induction k with
  | zero => exact h
  | succ k ih =>
      show (level expand xs (n + k)).flatMap expand = []
      rw [ih]
      rfl

theorem levels_add {xs : List β} {n : Nat} (h : level expand xs n = []) (k : Nat) :
    (List.range (n + k)).flatMap (level expand xs) = (List.range n).flatMap (level expand xs) := by
  induction k with
  | zero => rfl
  | succ k ih =>
      rw [← Nat.add_assoc, List.range_succ, List.flatMap_append, ih, List.flatMap_singleton,
        level_add_nil h, List.append_nil]

/-- It does not matter how deep one looks. -/
theorem levels_unique {xs : List β} {m n : Nat} (hm : level expand xs m = [])
    (hn : level expand xs n = []) :
    (List.range m).flatMap (level expand xs) = (List.range n).flatMap (level expand xs) := by
  cases Nat.le_total m n with
  | inl hle =>
      rw [← levels_add hm (n - m), Nat.add_sub_cancel' hle]
  | inr hle =>
      rw [← levels_add hn (m - n), Nat.add_sub_cancel' hle]

section

variable {S α : Type*} {items : S → List α} {body : α → S → Option S} {key : α → β}
  {I : S → Prop} {s u : S}

/-- From any round on, what is left is worked off in the order in which it stands in the list
at the end. -/
theorem worked_of_after
    (hbody : ∀ x s t, I s → body x s = some t →
      I t ∧ (items t).map key = (items s).map key ++ expand (key x))
    (hs : I s) {m n : Nat} (hmn : m ≤ n) {t : S} (ht : after items body m s = some t)
    (hu : after items body n s = some u) (hend : (items u)[n]? = none) :
    Worked expand (((items t).map key).drop m) (((items u).map key).drop m) := by
  induction hk : n - m generalizing m t with
  | zero =>
      have heq : m = n := by omega
      rw [heq, hu] at ht
      cases ht
      have hlen : ((items u).map key).length ≤ n := by
        rw [List.length_map]
        exact List.getElem?_eq_none_iff.mp hend
      rw [heq, List.drop_eq_nil_of_le hlen]
      exact .nil
  | succ k ih =>
      have hlt : m + 1 ≤ n := by omega
      cases hv : after items body (m + 1) s with
      | none =>
          rw [after_none_of_le hlt hv] at hu
          cases hu
      | some v =>
          obtain ⟨t', x, ht', hx, hb⟩ := after_succ hv
          rw [ht] at ht'
          cases ht'
          obtain ⟨rest, hdrop, hdrop'⟩ := pending_step hbody (after_invariant hbody hs ht) hx hb
          have hrest := ih hlt hv (by omega)
          rw [hdrop'] at hrest
          -- the item of this round stands where it stood
          have hpre : (items t).map key <+: (items u).map key := keys_grow hbody hs hmn ht hu
          have hget : ((items t).map key)[m]? = some (key x) := by
            rw [List.getElem?_map, hx]
            rfl
          obtain ⟨hm, hkey⟩ := List.getElem?_eq_some_iff.mp hget
          have hfinal : ((items u).map key).drop m =
              key x :: ((items u).map key).drop (m + 1) := by
            rw [List.drop_eq_getElem_cons (lt_of_lt_of_le hm hpre.length_le), ← hpre.getElem hm,
              hkey]
          rw [hdrop, hfinal]
          exact .cons hrest

/-- A loop that gets to the end of its list has gone through it level by level. -/
theorem finished_levels
    (hbody : ∀ x s t, I s → body x s = some t →
      I t ∧ (items t).map key = (items s).map key ++ expand (key x))
    (hs : I s) {n : Nat} (hu : after items body n s = some u) (hend : (items u)[n]? = none) :
    ∃ depth, level expand ((items s).map key) depth = [] ∧
      (items u).map key = (List.range depth).flatMap (level expand ((items s).map key)) :=
  (worked_of_after hbody hs (Nat.zero_le n) rfl hu hend).levels

/-- A loop that gets to the end of its list has come across what comes of it, and nothing else. -/
theorem finished_mem_iff
    (hbody : ∀ x s t, I s → body x s = some t →
      I t ∧ (items t).map key = (items s).map key ++ expand (key x))
    (hs : I s) {n : Nat} (hu : after items body n s = some u) (hend : (items u)[n]? = none)
    {y : β} : y ∈ (items u).map key ↔
      ∃ x ∈ (items s).map key, Relation.ReflTransGen (Appends expand) x y := by
  constructor
  · exact fun hy => reachable_of_after hbody hs hu hy
  · intro h
    obtain ⟨x, hx, hxy⟩ := h
    have hno := (finishes_iff_stops.mp ⟨n, u, hu, hend⟩).2
    obtain ⟨m, t, z, ht, hz, hkey⟩ := visits_reachable hbody hs hno hx hxy
    have hle : m ≤ n := by
      by_contra hlt
      have hnone : after items body (n + 1) s = none := by simp [after, hu, hend]
      rw [after_none_of_le (by omega) hnone] at ht
      cases ht
    have hmem : y ∈ (items t).map key := hkey ▸ List.mem_map_of_mem (List.mem_of_getElem? hz)
    exact (keys_grow hbody hs hle ht hu).subset hmem

/-- Besides its list a loop extends another one, by what belongs to each item. -/
theorem after_view {γ : Type*} (view : S → List γ) (gives : β → List γ)
    (hbody : ∀ x s t, I s → body x s = some t →
      I t ∧ (items t).map key = (items s).map key ++ expand (key x))
    (hview : ∀ x s t, I s → body x s = some t → view t = view s ++ gives (key x))
    (hs : I s) {n : Nat} (hu : after items body n s = some u) :
    view u = view s ++ (((items u).map key).take n).flatMap gives := by
  induction n generalizing u with
  | zero =>
      cases hu
      simp
  | succ n ih =>
      obtain ⟨t, x, ht, hx, hb⟩ := after_succ hu
      have hinv := after_invariant hbody hs ht
      obtain ⟨hn, -⟩ := List.getElem?_eq_some_iff.mp hx
      have hfront : ((items u).map key).take (n + 1) = ((items t).map key).take n ++ [key x] := by
        have hlen : n + 1 ≤ ((items t).map key).length := by
          rw [List.length_map]
          exact hn
        rw [(hbody x t u hinv hb).2, List.take_append_of_le_length hlen, List.take_add_one,
          List.getElem?_map, hx]
        rfl
      rw [hview x t u hinv hb, ih ht, hfront, List.flatMap_append, List.flatMap_singleton,
        List.append_assoc]

end

end Worklist
