import Mathlib.Data.List.Count
import Mathlib.Data.Prod.Basic
import Mathlib.Logic.Function.Basic

/-! # Registries

Things are registered under names. Under each name those that are pending stand in a row,
the newest first. A single one can be called or removed, and everything under some names can
be called at once. No registration is lost: it is pending, called or removed.
-/

namespace Registry

variable {ι α : Type*}

inductive Event (ι α : Type*) where
  | register (i : ι) (a : α)
  /-- the newest that is equal to `a`, if one is pending -/
  | call (i : ι) (a : α)
  /-- likewise, but it is not called -/
  | remove (i : ι) (a : α)
  /-- all under these names, name after name -/
  | settle (is : List ι)

/-- What is pending, and what became of the rest. -/
structure Book (ι α : Type*) where
  pending : ι → List α
  called : List (ι × α)
  removed : List (ι × α)

def Book.empty : Book ι α := ⟨fun _ => [], [], []⟩

variable [DecidableEq ι] [BEq α] [LawfulBEq α]

def Book.due (b : Book ι α) (i : ι) (a : α) : List (ι × α) :=
  if a ∈ b.pending i then [(i, a)] else []

def Book.act (b : Book ι α) : Event ι α → Book ι α
  | .register i a => { b with pending := Function.update b.pending i (a :: b.pending i) }
  | .call i a =>
      { b with
        pending := Function.update b.pending i ((b.pending i).erase a)
        called := b.called ++ b.due i a }
  | .remove i a =>
      { b with
        pending := Function.update b.pending i ((b.pending i).erase a)
        removed := b.removed ++ b.due i a }
  | .settle is =>
      { b with
        pending := fun i => if i ∈ is then [] else b.pending i
        called := b.called ++ is.flatMap fun i => (b.pending i).map (Prod.mk i) }

def Book.acts (b : Book ι α) (es : List (Event ι α)) : Book ι α := es.foldl Book.act b

def after (es : List (Event ι α)) : Book ι α := Book.empty.acts es

def Event.registered : Event ι α → List (ι × α)
  | .register i a => [(i, a)]
  | _ => []

def registered (es : List (Event ι α)) : List (ι × α) := es.flatMap Event.registered

/-- No name is settled twice at once. -/
def Event.Proper : Event ι α → Prop
  | .settle is => is.Nodup
  | _ => True

variable {b : Book ι α} {e : Event ι α} {es : List (Event ι α)} {i : ι} {a : α}

/-! ## The account -/

def Book.total (b : Book ι α) (i : ι) (a : α) : Nat :=
  b.called.count (i, a) + b.removed.count (i, a) + (b.pending i).count a

theorem count_map (as : List α) (j : ι) :
    (as.map (Prod.mk j)).count (i, a) = if j = i then as.count a else 0 := by
  split
  · rename_i hj
    rw [hj]
    exact List.count_map_of_injective as _ (Prod.mk_right_injective i) a
  · rename_i hj
    apply List.count_eq_zero_of_not_mem
    intro hmem
    have hpair := (List.mem_map.mp hmem).choose_spec.2
    exact hj (congrArg Prod.fst hpair)

theorem count_settled {is : List ι} (his : is.Nodup) :
    (is.flatMap fun j => (b.pending j).map (Prod.mk j)).count (i, a) =
      if i ∈ is then (b.pending i).count a else 0 := by
  induction is with
  | nil => rfl
  | cons j is ih =>
      have hnodup := List.nodup_cons.mp his
      rw [List.flatMap_cons, List.count_append, count_map, ih hnodup.2]
      by_cases hj : j = i
      · have hout : i ∉ is := hj ▸ hnodup.1
        rw [if_pos hj, if_neg hout, if_pos (hj ▸ List.mem_cons_self), hj, Nat.add_zero]
      · have hmem : i ∈ j :: is ↔ i ∈ is := by
          rw [List.mem_cons]
          exact or_iff_right (Ne.symm hj)
        rw [if_neg hj, Nat.zero_add]
        simp only [hmem]

theorem count_due (j : ι) (c : α) : (b.due j c).count (i, a) +
    (Function.update b.pending j ((b.pending j).erase c) i).count a = (b.pending i).count a := by
  unfold Book.due
  by_cases hi : i = j
  · rw [hi, Function.update_self]
    split
    · rename_i hmem
      by_cases ha : a = c
      · have hpos : 0 < (b.pending j).count a := List.count_pos_iff.mpr (ha ▸ hmem)
        have hone : [(j, a)].count (j, a) = 1 := List.count_singleton_self
        rw [← ha, List.count_erase_self, hone]
        omega
      · have hzero : [(j, c)].count (j, a) = 0 := by
          apply List.count_eq_zero_of_not_mem
          intro hpair
          exact ha (congrArg Prod.snd (List.mem_singleton.mp hpair))
        rw [List.count_erase_of_ne ha, hzero, Nat.zero_add]
    · rename_i hmem
      rw [List.erase_of_not_mem hmem, List.count_nil, Nat.zero_add]
  · have hzero : (if c ∈ b.pending j then [(j, c)] else []).count (i, a) = 0 := by
      apply List.count_eq_zero_of_not_mem
      intro hpair
      split at hpair
      · exact hi (congrArg Prod.fst (List.mem_singleton.mp hpair))
      · cases hpair
    rw [Function.update_of_ne hi, hzero, Nat.zero_add]

/-- An event loses nothing, and adds what it registers. -/
theorem total_act (he : e.Proper) :
    (b.act e).total i a = b.total i a + e.registered.count (i, a) := by
  unfold Book.total
  cases e with
  | register j c =>
      show b.called.count _ + b.removed.count _ +
        (Function.update b.pending j (c :: b.pending j) i).count a = _ + [(j, c)].count (i, a)
      have hone := count_map (i := i) (a := a) [c] j
      rw [List.map_singleton] at hone
      rw [hone]
      by_cases hi : i = j
      · rw [hi, Function.update_self, if_pos rfl, List.count_cons, List.count_singleton]
        omega
      · rw [Function.update_of_ne hi, if_neg (Ne.symm hi)]
        omega
  | call j c =>
      have hdue := count_due (b := b) (i := i) (a := a) j c
      show (b.called ++ b.due j c).count _ + b.removed.count _ + _ = _ + 0
      rw [List.count_append]
      show _ + (Function.update b.pending j ((b.pending j).erase c) i).count a = _
      omega
  | remove j c =>
      have hdue := count_due (b := b) (i := i) (a := a) j c
      show b.called.count _ + (b.removed ++ b.due j c).count _ + _ = _ + 0
      rw [List.count_append]
      show _ + (Function.update b.pending j ((b.pending j).erase c) i).count a = _
      omega
  | settle is =>
      have hsettled := count_settled (b := b) (i := i) (a := a) he
      show (b.called ++ is.flatMap fun j => (b.pending j).map (Prod.mk j)).count _ +
        b.removed.count _ + (if i ∈ is then [] else b.pending i).count a = _ + 0
      rw [List.count_append, hsettled]
      split
      · rw [List.count_nil]
        omega
      · omega

theorem total_acts (hes : ∀ e ∈ es, e.Proper) :
    (b.acts es).total i a = b.total i a + (registered es).count (i, a) := by
  induction es generalizing b with
  | nil => rfl
  | cons e es ih =>
      have hproper := List.forall_mem_cons.mp hes
      have hrest : (b.acts (e :: es)).total i a = _ := ih (b := b.act e) hproper.2
      have hcount : (registered (e :: es)).count (i, a) =
          e.registered.count (i, a) + (registered es).count (i, a) := by
        rw [← List.count_append]
        rfl
      rw [hrest, total_act hproper.1, hcount, Nat.add_assoc]

/-- Whatever was registered is called, removed or pending, as often as it was registered. -/
theorem accounted (hes : ∀ e ∈ es, e.Proper) (i : ι) (a : α) :
    (after es).called.count (i, a) + (after es).removed.count (i, a) +
      ((after es).pending i).count a = (registered es).count (i, a) := by
  have htotal := total_acts (b := Book.empty) (i := i) (a := a) hes
  have hempty : (Book.empty : Book ι α).total i a = 0 := rfl
  rw [hempty, Nat.zero_add] at htotal
  exact htotal

end Registry
