import Floppix.Algo.Sequence
import Mathlib.Algebra.Order.Group.Nat
import Mathlib.Data.Finset.Card
import Mathlib.Data.Finset.Range

/-! # The size of a list

`size` is counted by hand: pushing and removing a node change it, clearing sets it to zero,
and `fpx_list_insert_before` and `fpx_list_insert_after` leave it alone.
-/

namespace Floppix.Lists

open LinkedList Transition

/-- The address of a node: a pointer that is not `NULL`, of the width of `size_t`. -/
structure NodeAddr (sizeMax : Nat) where
  val : Nat
  pos : 0 < val
  lt : val < sizeMax
deriving DecidableEq

variable {sizeMax : Nat} {xs : List (NodeAddr sizeMax)} {n r : NodeAddr sizeMax}
  {list : Header (NodeAddr sizeMax)} {nodes : Nodes (NodeAddr sizeMax)}
  {w w' : World (NodeAddr sizeMax)} {c : Call (NodeAddr sizeMax)}

/-- There are fewer nodes than a `size_t` has values. -/
theorem length_lt (n : NodeAddr sizeMax) (h : xs.Nodup) : xs.length < sizeMax := by
  have hvals : (xs.map NodeAddr.val).Nodup := h.map fun a b hab => by
    cases a
    cases b
    cases hab
    rfl
  have hsub : (xs.map NodeAddr.val).toFinset ⊆ (Finset.range sizeMax).erase 0 := by
    intro v hv
    obtain ⟨a, -, rfl⟩ := List.mem_map.mp (List.mem_toFinset.mp hv)
    exact Finset.mem_erase.mpr ⟨Nat.ne_of_gt a.pos, Finset.mem_range.mpr a.lt⟩
  have hcard := Finset.card_le_card hsub
  have hpos : 0 < sizeMax := Nat.lt_trans n.pos n.lt
  have hzero : 0 ∈ Finset.range sizeMax := Finset.mem_range.mpr hpos
  rw [List.toFinset_card_of_nodup hvals, List.length_map, Finset.card_erase_of_mem hzero,
    Finset.card_range] at hcard
  omega

def Counted (w : World (NodeAddr sizeMax)) : Prop :=
  ∃ xs, Path (nextOf w.nodes) w.list.head xs ∧ w.list.size = xs.length

/-- The list is in step with its sequence, and `size` is its length. -/
structure Sized (w : World (NodeAddr sizeMax)) : Prop where
  represents : Represents w.list w.nodes w.seq
  size : w.list.size = w.seq.length

theorem counted_iff (h : Represents w.list w.nodes w.seq) :
    Counted w ↔ w.list.size = w.seq.length := by
  constructor
  · rintro ⟨xs, hpath, hsize⟩
    rw [hsize, Chain.unique hpath h.forward]
  · exact fun hsize => ⟨w.seq, h.forward, hsize⟩

/-! ## Counting -/

theorem increment_eq (hnodup : xs.Nodup) (hn : n ∉ xs) :
    increment sizeMax xs.length = xs.length + 1 := by
  have hlt := length_lt n (List.nodup_cons.mpr ⟨hn, hnodup⟩)
  exact Nat.mod_eq_of_lt hlt

theorem decrement_eq (hnodup : xs.Nodup) (hr : r ∈ xs) :
    decrement sizeMax xs.length = (xs.erase r).length := by
  have hlt := length_lt r hnodup
  have hpos := List.length_pos_of_mem hr
  rw [List.length_erase_of_mem hr, decrement,
    show xs.length + sizeMax - 1 = xs.length - 1 + sizeMax by omega, Nat.add_mod_right]
  exact Nat.mod_eq_of_lt (by omega)

theorem pushFront_size : (pushFront sizeMax list nodes n).1.size = increment sizeMax list.size := by
  unfold pushFront
  cases list.head <;> rfl

theorem remove_size : (remove sizeMax list nodes r).1.size = decrement sizeMax list.size := by
  by_cases hhead : list.head = some r <;> by_cases htail : list.tail = some r <;>
    simp [remove, hhead, htail]

theorem insertBefore_size {b : NodeAddr sizeMax} :
    (insertBefore list nodes b n).1.size = list.size := by
  unfold insertBefore
  split <;> rfl

theorem insertAfter_size {a : NodeAddr sizeMax} :
    (insertAfter list nodes a n).1.size = list.size := by
  unfold insertAfter
  split <;> rfl

/-! ## Steps -/

/-- The call is not an insertion that is made. -/
def NoInsert (w : World (NodeAddr sizeMax)) (c : Call (NodeAddr sizeMax)) : Prop :=
  c.IsInsert → step sizeMax w c = none

theorem step_insert (hins : c.IsInsert) (h : Sized w) (hstep : step sizeMax w c = some w') :
    w'.list.size ≠ w'.seq.length := by
  have hsize := h.size
  cases step_made h.represents hstep with
  | insertBefore us vs b n hseq hn =>
      rw [insertBefore_size, hsize, hseq]
      simp only [List.length_append, List.length_cons]
      omega
  | insertAfter us vs a n hseq hn =>
      rw [insertAfter_size, hsize, hseq]
      simp only [List.length_append, List.length_cons]
      omega
  | removed c hc r hr => exact absurd hins hc
  | unchanged c hc => exact absurd hins hc
  | _ => exact absurd hins not_false

theorem step_size (hno : ¬ c.IsInsert) (h : Sized w) (hstep : step sizeMax w c = some w') :
    w'.list.size = w'.seq.length := by
  have hnodup := h.represents.nodup
  cases step_made h.represents hstep with
  | pushFront n hn =>
      rw [pushFront_size, h.size]
      exact increment_eq hnodup hn
  | pushBack n hn =>
      rw [pushBack_size, h.size, List.length_append]
      exact increment_eq hnodup hn
  | insertBefore => exact absurd trivial hno
  | insertAfter => exact absurd trivial hno
  | removed c hc r hr =>
      rw [remove_size, h.size]
      exact decrement_eq hnodup hr
  | unchanged => exact h.size
  | cleared => rfl

theorem noInsert_iff (h : Sized w) (c : Call (NodeAddr sizeMax)) :
    NoInsert w c ↔ ∀ w', step sizeMax w c = some w' → Sized w' := by
  constructor
  · intro hno w' hstep
    refine ⟨step_represents hstep h.represents, step_size (fun hins => ?_) h hstep⟩
    rw [hno hins] at hstep
    cases hstep
  · intro hall hins
    by_contra hne
    obtain ⟨w', hstep⟩ := Option.ne_none_iff_exists'.mp hne
    exact step_insert hins h hstep (hall w' hstep).size

/-- In every state of a run from `fpx_list_init` the size is the number of nodes that can be
reached from the head exactly when no node is inserted next to another one. -/
theorem size_counts_iff (sizeMax : Nat) (nodes : Nodes (NodeAddr sizeMax))
    (cs : List (Call (NodeAddr sizeMax))) :
    Visits (step sizeMax) Counted (World.start nodes) cs ↔
      Meets (step sizeMax) NoInsert (World.start nodes) cs := by
  have hstart : Sized (World.start nodes) := ⟨linked_nil _ _, rfl⟩
  rw [← visits_iff_meets (fun w c h => noInsert_iff h c) cs hstart]
  have hrepresents := visits_represents sizeMax nodes cs
  constructor
  · exact fun h => (hrepresents.and h).mono fun w hw => ⟨hw.1, (counted_iff hw.1).mp hw.2⟩
  · exact fun h => h.mono fun w hw => (counted_iff hw.represents).mpr hw.size

def firstNode : NodeAddr (2 ^ 64) := ⟨16, by decide, by decide⟩
def secondNode : NodeAddr (2 ^ 64) := ⟨32, by decide, by decide⟩

def nullNodes : Nodes (NodeAddr (2 ^ 64)) := fun _ => ⟨none, none⟩

/-- A node is inserted behind another one. The size says that there is one node, and when both
are removed it wraps below zero. -/
theorem insertion_not_counted :
    (∃ w, run (step (2 ^ 64)) (World.start nullNodes)
        [.pushBack firstNode, .insertAfter firstNode secondNode] = some w ∧
      w.seq = [firstNode, secondNode] ∧ w.list.size = 1 ∧ ¬ Counted w) ∧
    ∃ w, run (step (2 ^ 64)) (World.start nullNodes)
        [.pushBack firstNode, .insertAfter firstNode secondNode, .remove secondNode,
          .remove firstNode] = some w ∧
      w.list.head = none ∧ w.list.size = 2 ^ 64 - 1 := by
  have hstates : ∃ w, run (step (2 ^ 64)) (World.start nullNodes)
        [.pushBack firstNode, .insertAfter firstNode secondNode] = some w ∧
      w.seq = [firstNode, secondNode] ∧ w.list.size = 1 := ⟨_, rfl, rfl, rfl⟩
  obtain ⟨w, hrun, hseq, hsize⟩ := hstates
  refine ⟨⟨w, hrun, hseq, hsize, fun hcounted => ?_⟩, _, rfl, rfl, rfl⟩
  have hrepresents := (visits_represents _ _ _).last hrun
  rw [counted_iff hrepresents, hseq, hsize] at hcounted
  cases hcounted

end Floppix.Lists
