import Mathlib.Data.List.Nodup

/-! # A ledger of registrations

Registrations are numbered. Each is pending until it is called or removed, and a call or a
removal of a value takes the newest pending registration of this value. Every number is
then in one place, once, and the pending numbers decrease.
-/

namespace Bookkeeping

universe u

variable {α : Type u}

/-- The values that were registered, by number, and the numbers by what became of them. The
newest pending number is the first one. -/
structure Ledger (α : Type u) where
  registered : List α
  pending : List Nat
  called : List Nat
  removed : List Nat

namespace Ledger

def empty : Ledger α := ⟨[], [], [], []⟩

def values (l : Ledger α) (is : List Nat) : List α := is.filterMap fun i => l.registered[i]?

def register (l : Ledger α) (a : α) : Ledger α :=
  { l with registered := l.registered ++ [a], pending := l.registered.length :: l.pending }

/-! ## Every number is in one place -/

/-- Each number is called, removed or pending, and the newest pending one comes first. -/
structure Sound (l : Ledger α) : Prop where
  account : (l.called ++ l.removed ++ l.pending).Perm (List.range l.registered.length)
  order : l.pending.Pairwise (· > ·)

variable {l : Ledger α}

theorem sound_empty : (empty : Ledger α).Sound := ⟨.refl _, .nil⟩

theorem Sound.lt (h : l.Sound) {i : Nat} (hi : i ∈ l.called ++ l.removed ++ l.pending) :
    i < l.registered.length := List.mem_range.mp (h.account.mem_iff.mp hi)

theorem Sound.register (h : l.Sound) (a : α) : (l.register a).Sound where
  account := by
    have hlength : (l.register a).registered.length = l.registered.length + 1 := by
      simp [Ledger.register]
    rw [hlength, List.range_succ]
    exact (List.perm_middle.trans (h.account.cons _)).trans (List.perm_append_singleton ..).symm
  order := List.pairwise_cons.mpr ⟨fun _ hi => h.lt (List.mem_append_right _ hi), h.order⟩

/-- A number that was not removed is called once, when all that is pending is called at the
end, and a removed one is not. -/
theorem Sound.once (h : l.Sound) {i : Nat} (hi : i < l.registered.length) :
    (l.called ++ l.pending).count i = if i ∈ l.removed then 0 else 1 := by
  have hcount := h.account.count_eq i
  rw [List.count_eq_one_of_mem List.nodup_range (List.mem_range.mpr hi), List.count_append,
    List.count_append] at hcount
  rw [List.count_append]
  split
  · rename_i hmem
    have hpos := List.count_pos_iff.mpr hmem
    omega
  · rename_i hmem
    rw [List.count_eq_zero_of_not_mem hmem] at hcount
    omega

/-! ## The values of the numbers -/

theorem values_append (l : Ledger α) (is js : List Nat) :
    l.values (is ++ js) = l.values is ++ l.values js := List.filterMap_append ..

theorem values_cons {i : Nat} {a : α} (hi : l.registered[i]? = some a) (is : List Nat) :
    l.values (i :: is) = a :: l.values is := List.filterMap_cons_some hi

theorem register_values (a : α) {is : List Nat} (his : ∀ i ∈ is, i < l.registered.length) :
    (l.register a).values is = l.values is :=
  List.filterMap_congr fun i hi => List.getElem?_append_left (his i hi)

theorem register_pending (h : l.Sound) (a : α) :
    (l.register a).values (l.register a).pending = a :: l.values l.pending := by
  have hnew : (l.register a).registered[l.registered.length]? = some a := by
    simp [Ledger.register]
  rw [← register_values a fun i hi => h.lt (List.mem_append_right _ hi), ← values_cons hnew]
  rfl

theorem register_called (h : l.Sound) (a : α) :
    (l.register a).values (l.register a).called = l.values l.called :=
  register_values a fun _ hi => h.lt (List.mem_append_left _ (List.mem_append_left _ hi))

variable [BEq α]

def newest (l : Ledger α) (a : α) : Option Nat :=
  l.pending.find? fun i => l.registered[i]? == some a

def call (l : Ledger α) (a : α) : Ledger α :=
  match l.newest a with
  | some i => { l with pending := l.pending.erase i, called := l.called ++ [i] }
  | none => l

def remove (l : Ledger α) (a : α) : Ledger α :=
  match l.newest a with
  | some i => { l with pending := l.pending.erase i, removed := l.removed ++ [i] }
  | none => l

theorem call_sublist (l : Ledger α) (a : α) : (l.call a).pending.Sublist l.pending := by
  unfold call
  split
  · exact List.erase_sublist
  · exact .refl _

theorem remove_sublist (l : Ledger α) (a : α) : (l.remove a).pending.Sublist l.pending := by
  unfold remove
  split
  · exact List.erase_sublist
  · exact .refl _

theorem remove_called (a : α) : (l.remove a).values (l.remove a).called = l.values l.called := by
  unfold Ledger.remove
  split <;> rfl

variable [LawfulBEq α]

theorem newest_mem {a : α} {i : Nat} (hi : l.newest a = some i) :
    i ∈ l.pending ∧ l.registered[i]? = some a :=
  ⟨List.mem_of_find?_eq_some hi, by simpa using List.find?_some hi⟩

theorem Sound.call (h : l.Sound) (a : α) : (l.call a).Sound where
  account := by
    unfold Ledger.call
    split
    · rename_i i hi
      have herase := List.perm_cons_erase (newest_mem hi).1
      refine List.Perm.trans ?_ ((herase.symm.append_left _).trans h.account)
      simp only [List.append_assoc, List.singleton_append]
      exact (List.perm_middle.symm).append_left _
    · exact h.account
  order := h.order.sublist (call_sublist l a)

theorem Sound.remove (h : l.Sound) (a : α) : (l.remove a).Sound where
  account := by
    unfold Ledger.remove
    split
    · rename_i i hi
      have herase := List.perm_cons_erase (newest_mem hi).1
      refine List.Perm.trans ?_ ((herase.symm.append_left _).trans h.account)
      simp
    · exact h.account
  order := h.order.sublist (remove_sublist l a)

theorem values_erase {a : α} {i : Nat} {is : List Nat}
    (hi : (is.find? fun i => l.registered[i]? == some a) = some i) :
    l.values (is.erase i) = (l.values is).erase a := by
  induction is with
  | nil => cases hi
  | cons j is ih =>
      by_cases hj : l.registered[j]? = some a
      · rw [List.find?_cons_of_pos (by simpa using hj), Option.some_inj] at hi
        subst hi
        rw [List.erase_cons_head, values_cons hj, List.erase_cons_head]
      · rw [List.find?_cons_of_neg (by simpa using hj)] at hi
        have hne : j ≠ i := by
          rintro rfl
          exact hj (by simpa using List.find?_some hi)
        rw [List.erase_cons_tail (by simpa using hne)]
        unfold values at ih ⊢
        cases hb : l.registered[j]? with
        | none => rw [List.filterMap_cons_none hb, List.filterMap_cons_none hb, ih hi]
        | some b =>
            have hba : b ≠ a := fun heq => hj (heq ▸ hb)
            rw [List.filterMap_cons_some hb, List.filterMap_cons_some hb,
              List.erase_cons_tail (by simpa using hba), ih hi]

theorem newest_none {a : α} (h : l.newest a = none) : a ∉ l.values l.pending := by
  intro ha
  obtain ⟨i, hi, hv⟩ := List.mem_filterMap.mp ha
  have := List.find?_eq_none.mp h i hi
  exact this (by simpa using hv)

theorem call_pending (a : α) :
    (l.call a).values (l.call a).pending = (l.values l.pending).erase a := by
  unfold Ledger.call
  split
  · rename_i i hi
    exact values_erase hi
  · rename_i hnone
    rw [List.erase_of_not_mem (newest_none hnone)]

theorem call_called (a : α) : (l.call a).values (l.call a).called =
    l.values l.called ++ if a ∈ l.values l.pending then [a] else [] := by
  unfold Ledger.call
  split
  · rename_i i hi
    obtain ⟨hmem, hv⟩ := newest_mem hi
    have ha : a ∈ l.values l.pending := List.mem_filterMap.mpr ⟨i, hmem, hv⟩
    have hone : l.values [i] = [a] := values_cons hv []
    rw [if_pos ha, ← hone, ← values_append]
    rfl
  · rename_i hnone
    rw [if_neg (newest_none hnone), List.append_nil]

theorem remove_pending (a : α) :
    (l.remove a).values (l.remove a).pending = (l.values l.pending).erase a := by
  unfold Ledger.remove
  split
  · rename_i i hi
    exact values_erase hi
  · rename_i hnone
    rw [List.erase_of_not_mem (newest_none hnone)]

/-! ## Histories -/

inductive Act (α : Type u) where
  | register (a : α)
  | call (a : α)
  | remove (a : α)

def act (l : Ledger α) : Act α → Ledger α
  | .register a => l.register a
  | .call a => l.call a
  | .remove a => l.remove a

def after (acts : List (Act α)) : Ledger α := acts.foldl act empty

omit [LawfulBEq α] in
theorem length_act (l : Ledger α) : ∀ a : Act α, (l.act a).pending.length ≤ l.pending.length + 1
  | .register _ => Nat.le_refl _
  | .call a => Nat.le_succ_of_le (call_sublist l a).length_le
  | .remove a => Nat.le_succ_of_le (remove_sublist l a).length_le

omit [LawfulBEq α] in
theorem length_foldl (acts : List (Act α)) (l : Ledger α) :
    (acts.foldl act l).pending.length ≤ l.pending.length + acts.length := by
  induction acts generalizing l with
  | nil => exact Nat.le_refl _
  | cons a acts ih =>
      have hact := l.length_act a
      have hrest := ih (l.act a)
      rw [List.foldl_cons, List.length_cons]
      omega

theorem Sound.act (h : l.Sound) : ∀ a : Act α, (l.act a).Sound
  | .register a => h.register a
  | .call a => h.call a
  | .remove a => h.remove a

end Ledger

end Bookkeeping
