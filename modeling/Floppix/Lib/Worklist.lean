import Mathlib.Algebra.GroupWithZero.Nat
import Mathlib.Data.List.Forall2
import Mathlib.Order.WellFounded
import Mathlib.Logic.Relation
import Mathlib.Data.Finite.Defs
import Mathlib.Order.RelClasses
import Mathlib.Data.Set.Finite.Basic
import Mathlib.Data.Fintype.EquivFin
import Mathlib.Data.Finite.Prod

/-! # Working through a list that grows

A loop goes through a list from the front, and working on an item may append further
items to the same list, or stop the loop. The length of the list is no measure for it.
What decides is the relation from an item to the items it appends: without a stop the
loop comes to an end exactly when no infinite chain starts in the list, and for
finitely many items that means no cycle.
-/

namespace Worklist

variable {β : Type*} (expand : β → List β)

def Spawned (y x : β) : Prop := y ∈ expand x

/-- Worked off from the front, with the new items at the back, the list gets empty. -/
inductive Drains : List β → Prop where
  | nil : Drains []
  | cons {x : β} {xs : List β} : Drains (xs ++ expand x) → Drains (x :: xs)

inductive Size : β → Nat → Prop where
  | intro {x : β} {ns : List Nat} : List.Forall₂ Size (expand x) ns → Size x (ns.sum + 1)

variable {expand}

theorem exists_sizes {xs : List β} (h : ∀ x ∈ xs, ∃ n, Size expand x n) :
    ∃ ns, List.Forall₂ (Size expand) xs ns := by
  induction xs with
  | nil => exact ⟨[], .nil⟩
  | cons x xs ih =>
      obtain ⟨n, hn⟩ := h x (List.mem_cons_self ..)
      obtain ⟨ns, hns⟩ := ih fun y hy => h y (List.mem_cons_of_mem x hy)
      exact ⟨n :: ns, .cons hn hns⟩

theorem size_of_acc {x : β} (h : Acc (Spawned expand) x) : ∃ n, Size expand x n := by
  induction h with
  | intro x _ ih =>
      obtain ⟨ns, hns⟩ := exists_sizes fun y hy => ih y hy
      exact ⟨_, .intro hns⟩

/-- Each item worked off takes one from the sum of the sizes. -/
theorem drains_of_sizes {xs : List β} {ns : List Nat} (h : List.Forall₂ (Size expand) xs ns) :
    Drains expand xs := by
  induction hn : ns.sum generalizing xs ns with
  | zero =>
      cases h with
      | nil => exact .nil
      | cons hx _ =>
          cases hx
          simp at hn
  | succ k ih =>
      cases h with
      | nil => exact .nil
      | @cons x n xs ns hx hxs =>
          cases hx with
          | @intro _ ms hms =>
              refine .cons (ih (List.rel_append hxs hms) ?_)
              simp only [List.sum_cons, List.sum_append] at hn ⊢
              omega

/-- The list gets empty exactly when no infinite chain of appended items starts in it. -/
theorem drains_iff (xs : List β) : Drains expand xs ↔ ∀ x ∈ xs, Acc (Spawned expand) x := by
  constructor
  · intro h
    induction h with
    | nil => simp
    | cons _ ih =>
        intro y hy
        rcases List.mem_cons.mp hy with rfl | hy
        · exact .intro y fun z hz => ih z (List.mem_append_right _ hz)
        · exact ih y (List.mem_append_left _ hy)
  · intro h
    obtain ⟨ns, hns⟩ := exists_sizes fun x hx => size_of_acc (h x hx)
    exact drains_of_sizes hns

/-! ## Cycles -/

variable (expand) in
def Appends (x y : β) : Prop := y ∈ expand x

variable (expand) in
/-- Some item that comes of the list comes of itself again. -/
def Cyclic (xs : List β) : Prop :=
  ∃ x ∈ xs, ∃ y, Relation.ReflTransGen (Appends expand) x y ∧
    Relation.TransGen (Appends expand) y y

theorem acc_of_reaches {x y : β} (h : Acc (Spawned expand) x)
    (hxy : Relation.ReflTransGen (Appends expand) x y) : Acc (Spawned expand) y := by
  induction hxy with
  | refl => exact h
  | tail _ hstep ih => exact ih.inv hstep

theorem not_cycle_of_acc {x : β} (h : Acc (Spawned expand) x) :
    ¬ Relation.TransGen (Appends expand) x x := by
  induction h with
  | intro x _ ih =>
      intro hcycle
      obtain ⟨y, hxy, hyx⟩ := Relation.TransGen.head'_iff.mp hcycle
      exact ih y hxy (Relation.TransGen.tail' hyx hxy)

/-- Where only finitely many items can come up, no infinite chain means no cycle. -/
theorem acc_iff_not_cyclic {xs : List β}
    (hfin : {y | ∃ x ∈ xs, Relation.ReflTransGen (Appends expand) x y}.Finite) :
    (∀ x ∈ xs, Acc (Spawned expand) x) ↔ ¬ Cyclic expand xs := by
  constructor
  · rintro h ⟨x, hx, y, hxy, hcycle⟩
    exact not_cycle_of_acc (acc_of_reaches (h x hx) hxy) hcycle
  · intro hno
    let R := {y | ∃ x ∈ xs, Relation.ReflTransGen (Appends expand) x y}
    have : Finite R := hfin
    let below (y z : R) : Prop := Relation.TransGen (Appends expand) z.1 y.1
    have htrans : IsTrans R below := ⟨fun a b c hab hbc => hbc.trans hab⟩
    have hirrefl : Std.Irrefl below := ⟨fun ⟨y, x, hx, hxy⟩ hc => hno ⟨x, hx, y, hxy, hc⟩⟩
    have hwf : WellFounded below := Finite.wellFounded_of_trans_of_irrefl below
    have hacc (z : R) : Acc (Spawned expand) z.1 := by
      induction z using hwf.induction with
      | _ z ih =>
          obtain ⟨z, x, hx, hxz⟩ := z
          refine .intro z fun y hy => ?_
          exact ih ⟨y, x, hx, hxz.tail hy⟩ (.single hy)
    exact fun x hx => hacc ⟨x, x, hx, .refl⟩

/-! ## The loop -/

section

variable {S α : Type*} (items : S → List α) (body : α → S → Option S)

/-- The state after `n` items, while none of them has stopped the loop and there are as
many. -/
def after : Nat → S → Option S
  | 0, s => some s
  | n + 1, s => (after n s).bind fun t => ((items t)[n]?).bind fun x => body x t

/-- The loop comes to an end: at the end of the list, or at an item that stops it. -/
def Stops (s : S) : Prop := ∃ n, after items body n s = none

/-- The loop gets to an item that stops it. -/
def Refuses (s : S) : Prop :=
  ∃ n t x, after items body n s = some t ∧ (items t)[n]? = some x ∧ body x t = none

/-- The loop gets to the end of its list. -/
def Finishes (s : S) : Prop := ∃ n t, after items body n s = some t ∧ (items t)[n]? = none

variable {items body} {key : α → β} {I : S → Prop} {s t : S}

theorem after_succ {n : Nat} {u : S} (h : after items body (n + 1) s = some u) :
    ∃ t x, after items body n s = some t ∧ (items t)[n]? = some x ∧ body x t = some u := by
  obtain ⟨t, ht, h⟩ := Option.bind_eq_some_iff.mp h
  obtain ⟨x, hx, hu⟩ := Option.bind_eq_some_iff.mp h
  exact ⟨t, x, ht, hx, hu⟩

theorem after_invariant
    (hbody : ∀ x s t, I s → body x s = some t →
      I t ∧ (items t).map key = (items s).map key ++ expand (key x))
    (hs : I s) {n : Nat} (h : after items body n s = some t) : I t := by
  induction n generalizing t with
  | zero => cases h; exact hs
  | succ n ih =>
      obtain ⟨u, x, hu, -, hx⟩ := after_succ h
      exact (hbody x u t (ih hu) hx).1

/-- Whatever is in the list at some time comes of the list at the start. -/
theorem reachable_of_after
    (hbody : ∀ x s t, I s → body x s = some t →
      I t ∧ (items t).map key = (items s).map key ++ expand (key x))
    (hs : I s) {n : Nat} (h : after items body n s = some t) {y : β} (hy : y ∈ (items t).map key) :
    ∃ x ∈ (items s).map key, Relation.ReflTransGen (Appends expand) x y := by
  induction n generalizing t y with
  | zero =>
      cases h
      exact ⟨y, hy, .refl⟩
  | succ n ih =>
      obtain ⟨u, x, hu, hx, hb⟩ := after_succ h
      rw [(hbody x u t (after_invariant hbody hs hu) hb).2] at hy
      rcases List.mem_append.mp hy with hy | hy
      · exact ih hu hy
      · obtain ⟨z, hz, hzx⟩ := ih hu (List.mem_map_of_mem (List.mem_of_getElem? hx))
        exact ⟨z, hz, hzx.tail hy⟩

theorem pending_step
    (hbody : ∀ x s t, I s → body x s = some t →
      I t ∧ (items t).map key = (items s).map key ++ expand (key x))
    {u : S} {n : Nat} {x : α} (ht : I t) (hx : (items t)[n]? = some x) (hu : body x t = some u) :
    ∃ rest, ((items t).map key).drop n = key x :: rest ∧
      ((items u).map key).drop (n + 1) = rest ++ expand (key x) := by
  obtain ⟨hn, hget⟩ := List.getElem?_eq_some_iff.mp hx
  have hlen : n < ((items t).map key).length := by simpa using hn
  refine ⟨((items t).map key).drop (n + 1), ?_, ?_⟩
  · rw [List.drop_eq_getElem_cons hlen, List.getElem_map, hget]
  · rw [(hbody x t u ht hu).2, List.drop_append_of_le_length (by omega)]

/-- The loop comes to an end exactly when no infinite chain of items starts in the list,
or an item stops it. -/
theorem stops_iff
    (hbody : ∀ x s t, I s → body x s = some t →
      I t ∧ (items t).map key = (items s).map key ++ expand (key x))
    (hs : I s) :
    Stops items body s ↔
      (∀ x ∈ (items s).map key, Acc (Spawned expand) x) ∨ Refuses items body s := by
  rw [← drains_iff]
  constructor
  · rintro ⟨n, hn⟩
    -- backwards from the round in which the loop stops
    have hback : ∀ k ≤ n, ∀ t, after items body k s = some t →
        Drains expand (((items t).map key).drop k) ∨ Refuses items body s := by
      intro k hk
      induction hd : n - k generalizing k with
      | zero =>
          intro t ht
          rw [Nat.le_antisymm hk (by omega)] at ht
          rw [hn] at ht
          cases ht
      | succ d ih =>
          intro t ht
          cases hx : (items t)[k]? with
          | none =>
              rw [List.drop_of_length_le (by simpa using List.getElem?_eq_none_iff.mp hx)]
              exact Or.inl .nil
          | some x =>
              cases hu : body x t with
              | none => exact Or.inr ⟨k, t, x, ht, hx, hu⟩
              | some u =>
                  have hau : after items body (k + 1) s = some u := by
                    simp [after, ht, hx, hu]
                  obtain ⟨rest, hdrop, hdrop'⟩ :=
                    pending_step hbody (after_invariant hbody hs ht) hx hu
                  rcases ih (k + 1) (by omega) (by omega) u hau with h | h
                  · rw [hdrop]
                    rw [hdrop'] at h
                    exact Or.inl (.cons h)
                  · exact Or.inr h
    exact hback 0 (Nat.zero_le n) s rfl
  · rintro (h | ⟨n, t, x, ht, hx, hb⟩)
    · -- forwards, along the list that gets empty
      have hfwd : ∀ q, Drains expand q → ∀ n t, after items body n s = some t →
          ((items t).map key).drop n = q → Stops items body s := by
        intro q hq
        induction hq with
        | nil =>
            intro n t ht hdrop
            refine ⟨n + 1, ?_⟩
            have hnone : (items t)[n]? = none := by
              have := List.drop_eq_nil_iff.mp hdrop
              simpa using this
            simp [after, ht, hnone]
        | @cons y ys _ ih =>
            intro n t ht hdrop
            have hlen : n < (items t).length := by
              have : ((items t).map key).drop n ≠ [] := by simp [hdrop]
              simpa using this
            have hx : (items t)[n]? = some (items t)[n] := List.getElem?_eq_getElem hlen
            cases hu : body (items t)[n] t with
            | none => exact ⟨n + 1, by simp [after, ht, hx, hu]⟩
            | some u =>
                obtain ⟨rest, hd, hd'⟩ :=
                  pending_step hbody (after_invariant hbody hs ht) hx hu
                rw [hdrop] at hd
                obtain ⟨rfl, rfl⟩ := List.cons.inj hd
                exact ih (n + 1) u (by simp [after, ht, hx, hu]) hd'
      exact hfwd _ h 0 s rfl (by simp)
    · exact ⟨n + 1, by simp [after, ht, hx, hb]⟩

theorem keys_grow
    (hbody : ∀ x s t, I s → body x s = some t →
      I t ∧ (items t).map key = (items s).map key ++ expand (key x))
    (hs : I s) {m n : Nat} (hmn : m ≤ n) {u : S} (ht : after items body m s = some t)
    (hu : after items body n s = some u) : (items t).map key <+: (items u).map key := by
  induction n, hmn using Nat.le_induction generalizing u with
  | base =>
      rw [ht] at hu
      cases hu
      exact List.prefix_rfl
  | succ n _ ih =>
      obtain ⟨v, x, hv, -, hx⟩ := after_succ hu
      apply (ih hv).trans
      rw [(hbody x v u (after_invariant hbody hs hv) hx).2]
      exact List.prefix_append ..

/-- A loop that no item stops gets to everything that comes of its list. -/
theorem visits_reachable
    (hbody : ∀ x s t, I s → body x s = some t →
      I t ∧ (items t).map key = (items s).map key ++ expand (key x))
    (hs : I s) (hno : ¬ Refuses items body s) {y z : β} (hy : y ∈ (items s).map key)
    (hyz : Relation.ReflTransGen (Appends expand) y z) :
    ∃ n t x, after items body n s = some t ∧ (items t)[n]? = some x ∧ key x = z := by
  have hgoes {n : Nat} {t : S} (ht : after items body n s = some t) (hn : n < (items t).length) :
      ∃ u, after items body (n + 1) s = some u := by
    have hx : (items t)[n]? = some (items t)[n] := List.getElem?_eq_getElem hn
    cases hb : body (items t)[n] t with
    | none => exact absurd ⟨n, t, _, ht, hx, hb⟩ hno
    | some u => exact ⟨u, by simp [after, ht, hx, hb]⟩
  -- an item that is in the list at some time has its turn at its own position
  have hturn {m : Nat} {t : S} {z : β} (ht : after items body m s = some t)
      (hz : z ∈ ((items t).map key).drop m) :
      ∃ n t x, after items body n s = some t ∧ (items t)[n]? = some x ∧ key x = z := by
    obtain ⟨i, hi⟩ := List.mem_iff_getElem?.mp hz
    rw [List.getElem?_drop] at hi
    have hlen : m + i < (items t).length := by
      have := (List.getElem?_eq_some_iff.mp hi).1
      simpa using this
    have hsome : ∀ k, k ≤ i → ∃ u, after items body (m + k) s = some u := by
      intro k
      induction k with
      | zero => exact fun _ => ⟨t, ht⟩
      | succ k ih =>
          intro hk
          obtain ⟨u, hu⟩ := ih (by omega)
          have hle := (keys_grow hbody hs (Nat.le_add_right m k) ht hu).length_le
          simp only [List.length_map] at hle
          exact hgoes (n := m + k) hu (by omega)
    obtain ⟨u, hu⟩ := hsome i le_rfl
    have hpre := keys_grow hbody hs (Nat.le_add_right m i) ht hu
    have hz' : ((items u).map key)[m + i]? = some z := by
      obtain ⟨more, hmore⟩ := hpre
      rw [← hmore, List.getElem?_append_left (List.getElem?_eq_some_iff.mp hi).1, hi]
    rw [List.getElem?_map] at hz'
    obtain ⟨x, hx, hk⟩ := Option.map_eq_some_iff.mp hz'
    exact ⟨m + i, u, x, hu, hx, hk⟩
  induction hyz with
  | refl => exact hturn (m := 0) (t := s) rfl (by simpa using hy)
  | @tail z z' _ hstep ih =>
      obtain ⟨n, t, x, ht, hx, hk⟩ := ih
      obtain ⟨u, hu⟩ := hgoes ht (List.getElem?_eq_some_iff.mp hx).1
      obtain ⟨t', x', ht', hx', hb⟩ := after_succ hu
      rw [ht] at ht'
      cases ht'
      rw [hx] at hx'
      cases hx'
      obtain ⟨rest, -, hdrop⟩ := pending_step hbody (after_invariant hbody hs ht) hx hb
      apply hturn hu
      rw [hdrop, hk]
      exact List.mem_append_right _ hstep

theorem after_none_of_le {m n : Nat} (hmn : m ≤ n) (h : after items body m s = none) :
    after items body n s = none := by
  induction n, hmn using Nat.le_induction with
  | base => exact h
  | succ n _ ih => simp [after, ih]

/-- A loop has at most one last round. -/
theorem last_unique {m n : Nat} {u : S} (hu : after items body m s = some u)
    (hm : after items body (m + 1) s = none) (ht : after items body n s = some t)
    (hn : after items body (n + 1) s = none) : m = n := by
  rcases Nat.lt_trichotomy m n with hlt | rfl | hlt
  · rw [after_none_of_le hlt hm] at ht
    cases ht
  · rfl
  · rw [after_none_of_le hlt hn] at hu
    cases hu

/-- A loop ends at the end of its list exactly when it ends and no item stops it. -/
theorem finishes_iff_stops :
    Finishes items body s ↔ Stops items body s ∧ ¬ Refuses items body s := by
  constructor
  · rintro ⟨n, t, ht, hend⟩
    have hnone : after items body (n + 1) s = none := by simp [after, ht, hend]
    refine ⟨⟨n + 1, hnone⟩, ?_⟩
    rintro ⟨m, u, x, hu, hx, hb⟩
    have hstop : after items body (m + 1) s = none := by simp [after, hu, hx, hb]
    obtain rfl := last_unique hu hstop ht hnone
    rw [ht] at hu
    cases hu
    rw [hend] at hx
    cases hx
  · rintro ⟨⟨n, hn⟩, hno⟩
    induction n with
    | zero => cases hn
    | succ n ih =>
        cases ht : after items body n s with
        | none => exact ih ht
        | some t =>
            refine ⟨n, t, ht, ?_⟩
            cases hx : (items t)[n]? with
            | none => rfl
            | some x =>
                refine absurd ⟨n, t, x, ht, hx, ?_⟩ hno
                simpa [after, ht, hx] using hn

/-- A loop gets to the end of its list exactly when no infinite chain of items starts in
the list and no item stops it. -/
theorem finishes_iff
    (hbody : ∀ x s t, I s → body x s = some t →
      I t ∧ (items t).map key = (items s).map key ++ expand (key x))
    (hs : I s) :
    Finishes items body s ↔
      (∀ x ∈ (items s).map key, Acc (Spawned expand) x) ∧ ¬ Refuses items body s := by
  rw [finishes_iff_stops, stops_iff hbody hs]
  constructor
  · rintro ⟨hacc | hrefuses, hno⟩
    · exact ⟨hacc, hno⟩
    · exact absurd hrefuses hno
  · exact fun ⟨hacc, hno⟩ => ⟨Or.inl hacc, hno⟩

end

end Worklist
