import Floppix.Lib.Family
import Mathlib.Data.List.Flatten
import Mathlib.Data.List.Nodup
import Mathlib.Data.List.Pairwise

/-! # The trees of pools

Pools are created with or without a parent. Those without one are the roots of trees,
and a pool is destroyed with everything below it.
-/

namespace Floppix.Pools

open Kinship

/-- The pools without a parent, each with the family of its children. -/
abbrev Forest := List (Nat × Family Nat)

def Forest.tree (root : Nat × Family Nat) : Family Nat := .node root.1 root.2 .nil

def Forest.members (forest : Forest) : List Nat :=
  forest.flatMap fun root => (Forest.tree root).members

def Forest.addChild (parent new : Nat) (forest : Forest) : Forest :=
  forest.map fun root =>
    (root.1, if root.1 = parent then .node new .nil root.2 else root.2.addChild parent new)

theorem Forest.tree_addChild (parent new : Nat) (root : Nat × Family Nat) :
    Forest.tree (root.1, if root.1 = parent then .node new .nil root.2
      else root.2.addChild parent new) = (Forest.tree root).addChild parent new := by
  unfold Forest.tree
  rw [Family.addChild]
  split <;> rfl

def Forest.join (parent : Option Nat) (new : Nat) (forest : Forest) : Forest :=
  match parent with
  | none => (new, .nil) :: forest
  | some q => forest.addChild q new

def Forest.joined (parent new : Option Nat) (forest : Forest) : Forest :=
  match new with
  | none => forest
  | some a => forest.join parent a

theorem Forest.mem_members {forest : Forest} {p : Nat} :
    p ∈ forest.members ↔ ∃ root ∈ forest, p ∈ (Forest.tree root).members := List.mem_flatMap

theorem Forest.members_cons (root : Nat × Family Nat) (rest : Forest) :
    Forest.members (root :: rest) = (Forest.tree root).members ++ Forest.members rest := rfl

theorem Forest.members_addChild_cons (parent new : Nat) (root : Nat × Family Nat)
    (rest : Forest) : (Forest.addChild parent new (root :: rest)).members =
      ((Forest.tree root).addChild parent new).members ++
        (Forest.addChild parent new rest).members := by
  rw [← Forest.tree_addChild]
  rfl

theorem Forest.addChild_of_not_mem {parent new : Nat} {forest : Forest}
    (h : parent ∉ forest.members) :
    (forest.addChild parent new).members = forest.members := by
  induction forest with
  | nil => rfl
  | cons root rest ih =>
      rw [Forest.members_cons, List.mem_append, not_or] at h
      rw [Forest.members_addChild_cons, Forest.members_cons, Family.addChild_of_not_mem h.1, ih h.2]

theorem Forest.addChild_perm {parent new : Nat} {forest : Forest} (h : forest.members.Nodup)
    (hparent : parent ∈ forest.members) :
    (forest.addChild parent new).members.Perm (new :: forest.members) := by
  induction forest with
  | nil => cases hparent
  | cons root rest ih =>
      rw [Forest.members_cons] at h hparent ⊢
      rw [Forest.members_addChild_cons]
      obtain ⟨htree, hrest, hdisjoint⟩ := List.nodup_append.mp h
      rcases List.mem_append.mp hparent with hp | hp
      · rw [Forest.addChild_of_not_mem fun hpr => hdisjoint parent hp parent hpr rfl]
        exact (Family.addChild_perm htree hp).append_right _
      · rw [Family.addChild_of_not_mem fun hpt => hdisjoint parent hpt parent hp rfl]
        exact ((ih hrest hp).append_left _).trans List.perm_middle

theorem Forest.joined_perm {forest : Forest} {parent : Option Nat} {new : Nat}
    (h : forest.members.Nodup) (hparent : ∀ q ∈ parent, q ∈ forest.members) :
    (forest.joined parent (some new)).members.Perm (new :: forest.members) := by
  cases parent with
  | none => exact .refl _
  | some q => exact Forest.addChild_perm h (hparent q rfl)

theorem Forest.mem_joined_iff {forest : Forest} {parent new : Option Nat} {q : Nat}
    (h : forest.members.Nodup) (hparent : ∀ q ∈ parent, q ∈ forest.members) :
    q ∈ (forest.joined parent new).members ↔ new = some q ∨ q ∈ forest.members := by
  cases new with
  | none => exact (or_iff_right (Option.some_ne_none q).symm).symm
  | some a => rw [(Forest.joined_perm h hparent).mem_iff, List.mem_cons, Option.some_inj, eq_comm]

theorem Forest.new_not_mem {forest : Forest} {parent : Option Nat} {new : Nat}
    (h : forest.members.Nodup) (hparent : ∀ q ∈ parent, q ∈ forest.members)
    (h' : (forest.joined parent (some new)).members.Nodup) : new ∉ forest.members :=
  (List.nodup_cons.mp ((Forest.joined_perm h hparent).nodup_iff.mp h')).1

/-! ## Subtrees -/

def Forest.offspring (p : Nat) : Forest → Family Nat
  | [] => .nil
  | root :: rest =>
      if p ∈ (Forest.tree root).members then (Forest.tree root).offspring p
      else Forest.offspring p rest

/-- The pool and everything below it, in the order in which it is destroyed. -/
def Forest.subtree (p : Nat) (forest : Forest) : List Nat := (forest.offspring p).postorder ++ [p]

def Forest.without (p : Nat) (forest : Forest) : Forest :=
  (forest.filter fun root => root.1 ≠ p).map fun root => (root.1, root.2.without p)

def Forest.IsRoot (p : Nat) (forest : Forest) : Prop := p ∈ forest.map Prod.fst

instance (p : Nat) (forest : Forest) : Decidable (forest.IsRoot p) :=
  inferInstanceAs (Decidable (_ ∈ _))

variable {forest : Forest} {p q : Nat}

theorem Forest.offspring_eq (hp : p ∈ forest.members) :
    ∃ root ∈ forest, p ∈ (Forest.tree root).members ∧
      forest.offspring p = (Forest.tree root).offspring p := by
  induction forest with
  | nil => cases hp
  | cons root rest ih =>
      rw [Forest.members_cons, List.mem_append] at hp
      unfold Forest.offspring
      split
      · rename_i hroot
        exact ⟨root, List.mem_cons_self .., hroot, rfl⟩
      · rename_i hroot
        obtain ⟨root', hroot', hp', heq⟩ := ih (hp.resolve_left hroot)
        exact ⟨root', List.mem_cons_of_mem _ hroot', hp', heq⟩

theorem Forest.tree_unique (h : forest.members.Nodup) {root root' : Nat × Family Nat}
    (hroot : root ∈ forest) (hroot' : root' ∈ forest) (hp : p ∈ (Forest.tree root).members)
    (hp' : p ∈ (Forest.tree root').members) : root = root' := by
  by_contra hne
  have hsymm : Std.Symm (Function.onFun List.Disjoint fun root => (Forest.tree root).members) :=
    ⟨fun _ _ hd _ hx hx' => hd hx' hx⟩
  have hdisjoint := (List.nodup_flatMap.mp h).2.forall hroot hroot' hne
  exact hdisjoint hp hp'

theorem Forest.root_mem {root : Nat × Family Nat} (hroot : root ∈ forest) :
    root.1 ∈ forest.members :=
  Forest.mem_members.mpr ⟨root, hroot, List.mem_cons_self ..⟩

theorem Forest.offspring_root (h : forest.members.Nodup) {root : Nat × Family Nat}
    (hroot : root ∈ forest) : forest.offspring root.1 = root.2 := by
  obtain ⟨root', hroot', hp, heq⟩ := Forest.offspring_eq (Forest.root_mem hroot)
  cases Forest.tree_unique h hroot' hroot hp (List.mem_cons_self ..)
  rw [heq, Forest.tree, Family.offspring, if_pos rfl]

theorem Forest.mem_subtree : q ∈ forest.subtree p ↔ q ∈ (forest.offspring p).members ∨ q = p := by
  rw [Forest.subtree, List.mem_append, Family.mem_postorder, List.mem_singleton]

theorem Forest.mem_subtree_root (h : forest.members.Nodup) {root : Nat × Family Nat}
    (hroot : root ∈ forest) : q ∈ forest.subtree root.1 ↔ q ∈ (Forest.tree root).members := by
  rw [Forest.mem_subtree, Forest.offspring_root h hroot]
  simp only [Forest.tree, Family.members, List.append_nil, List.mem_cons]
  exact or_comm

theorem Forest.subtree_subset (hp : p ∈ forest.members) : forest.subtree p ⊆ forest.members := by
  intro q hq
  rcases Forest.mem_subtree.mp hq with hq | rfl
  · obtain ⟨root, hroot, -, heq⟩ := Forest.offspring_eq hp
    rw [heq] at hq
    exact Forest.mem_members.mpr ⟨root, hroot, Family.offspring_subset hq⟩
  · exact hp

theorem Forest.offspring_nodup (h : forest.members.Nodup) (hp : p ∈ forest.members) :
    (p :: (forest.offspring p).members).Nodup := by
  obtain ⟨root, hroot, hmem, heq⟩ := Forest.offspring_eq hp
  rw [heq]
  exact Family.nodup_offspring ((List.nodup_flatMap.mp h).1 root hroot) hmem

theorem Forest.subtree_nodup (h : forest.members.Nodup) (hp : p ∈ forest.members) :
    (forest.subtree p).Nodup := by
  obtain ⟨hnot, hnodup⟩ := List.nodup_cons.mp (Forest.offspring_nodup h hp)
  refine List.nodup_append.mpr ⟨Family.nodup_postorder hnodup, List.nodup_singleton p, ?_⟩
  rintro x hx y hy rfl
  cases List.mem_singleton.mp hy
  exact hnot (Family.mem_postorder.mp hx)

theorem Forest.without_root (h : forest.members.Nodup) {root : Nat × Family Nat}
    (hroot : root ∈ forest) :
    forest.without root.1 = forest.filter fun other => other.1 ≠ root.1 := by
  refine (List.map_congr_left fun other hother => ?_).trans (List.map_id _)
  obtain ⟨hmem, hne⟩ := List.mem_filter.mp hother
  rw [decide_eq_true_iff] at hne
  have hnot : root.1 ∉ other.2.members := fun hin => by
    have htree : root.1 ∈ (Forest.tree other).members := by simp [Forest.tree, Family.members, hin]
    cases Forest.tree_unique h hmem hroot htree (List.mem_cons_self ..)
    exact hne rfl
  rw [Family.without_of_not_mem hnot]
  rfl

theorem Forest.mem_without (h : forest.members.Nodup) {root : Nat × Family Nat}
    (hroot : root ∈ forest) : q ∈ (forest.without root.1).members ↔
      q ∈ forest.members ∧ q ∉ (Forest.tree root).members := by
  rw [Forest.without_root h hroot, Forest.mem_members, Forest.mem_members]
  constructor
  · rintro ⟨other, hother, hq⟩
    obtain ⟨hmem, hne⟩ := List.mem_filter.mp hother
    rw [decide_eq_true_iff] at hne
    refine ⟨⟨other, hmem, hq⟩, fun hin => hne ?_⟩
    rw [Forest.tree_unique h hmem hroot hq hin]
  · rintro ⟨⟨other, hother, hq⟩, hnot⟩
    refine ⟨other, List.mem_filter.mpr ⟨hother, ?_⟩, hq⟩
    rw [decide_eq_true_iff]
    intro heq
    have hmem : other.1 ∈ (Forest.tree root).members := heq ▸ List.mem_cons_self ..
    cases Forest.tree_unique h hother hroot (List.mem_cons_self ..) hmem
    exact hnot hq

theorem Forest.without_sublist (h : forest.members.Nodup) {root : Nat × Family Nat}
    (hroot : root ∈ forest) : (forest.without root.1).members.Sublist forest.members := by
  rw [Forest.without_root h hroot]
  exact List.Sublist.flatMap List.filter_sublist _

/-! ## Several trees -/

/-- The pools that are destroyed when these are: those named, and those below them. -/
def Forest.destroyed (forest : Forest) (ps : List Nat) : List Nat :=
  ps.flatMap fun p => forest.subtree p

theorem Forest.mem_destroyed (h : forest.members.Nodup) {ps : List Nat}
    (hroots : ∀ p ∈ ps, forest.IsRoot p) :
    q ∈ forest.destroyed ps ↔
      ∃ root ∈ forest, root.1 ∈ ps ∧ q ∈ (Forest.tree root).members := by
  rw [Forest.destroyed, List.mem_flatMap]
  constructor
  · rintro ⟨p, hp, hq⟩
    obtain ⟨root, hroot, rfl⟩ := List.mem_map.mp (hroots p hp)
    exact ⟨root, hroot, hp, (Forest.mem_subtree_root h hroot).mp hq⟩
  · rintro ⟨root, hroot, hp, hq⟩
    exact ⟨root.1, hp, (Forest.mem_subtree_root h hroot).mpr hq⟩

theorem Forest.destroyed_subset (h : forest.members.Nodup) {ps : List Nat}
    (hroots : ∀ p ∈ ps, forest.IsRoot p) : forest.destroyed ps ⊆ forest.members := by
  intro q hq
  obtain ⟨root, hroot, -, hmem⟩ := (Forest.mem_destroyed h hroots).mp hq
  exact Forest.mem_members.mpr ⟨root, hroot, hmem⟩

theorem Forest.destroyed_nodup (h : forest.members.Nodup) {ps : List Nat}
    (hroots : ∀ p ∈ ps, forest.IsRoot p) (hnodup : ps.Nodup) : (forest.destroyed ps).Nodup := by
  refine List.nodup_flatMap.mpr ⟨fun p hp => ?_,
    hnodup.imp_of_mem fun {p q} hp hq hne x hx hx' => ?_⟩
  · obtain ⟨root, hroot, rfl⟩ := List.mem_map.mp (hroots p hp)
    exact Forest.subtree_nodup h (Forest.root_mem hroot)
  · obtain ⟨root, hroot, rfl⟩ := List.mem_map.mp (hroots p hp)
    obtain ⟨root', hroot', rfl⟩ := List.mem_map.mp (hroots q hq)
    have htree := Forest.tree_unique h hroot hroot' ((Forest.mem_subtree_root h hroot).mp hx)
      ((Forest.mem_subtree_root h hroot').mp hx')
    exact hne (congrArg Prod.fst htree)

theorem Forest.not_destroyed (h : forest.members.Nodup) {root : Nat × Family Nat}
    (hroot : root ∈ forest) {ps : List Nat} (hroots : ∀ p ∈ ps, forest.IsRoot p)
    (hnot : root.1 ∉ ps) (hq : q ∈ (Forest.tree root).members) : q ∉ forest.destroyed ps := by
  intro hmem
  obtain ⟨root', hroot', hp, hq'⟩ := (Forest.mem_destroyed h hroots).mp hmem
  exact hnot (Forest.tree_unique h hroot hroot' hq hq' ▸ hp)

theorem Forest.root_not_below (h : forest.members.Nodup) {root : Nat × Family Nat}
    (hroot : root ∈ forest) (hp : p ∈ (Forest.tree root).members) (hne : p ≠ root.1) :
    root.1 ∉ forest.subtree p := by
  intro hmem
  rcases Forest.mem_subtree.mp hmem with hmem | heq
  · obtain ⟨root', hroot', hp', hoff⟩ :=
      Forest.offspring_eq (Forest.mem_members.mpr ⟨root, hroot, hp⟩)
    cases Forest.tree_unique h hroot hroot' hp hp'
    rw [hoff, Forest.tree, Family.offspring, if_neg (Ne.symm hne)] at hmem
    have htree := (List.nodup_flatMap.mp h).1 root hroot
    simp only [Forest.tree, Family.members, List.append_nil, List.nodup_cons] at htree
    split at hmem
    · exact htree.1 (Family.offspring_subset hmem)
    · exact absurd (Family.offspring_subset hmem) List.not_mem_nil
  · exact hne heq.symm

/-- Roots keep their trees when another tree is gone. -/
theorem Forest.subtree_without (h : forest.members.Nodup) {root other : Nat × Family Nat}
    (hroot : root ∈ forest) (hother : other ∈ forest) (hne : other.1 ≠ root.1) :
    other ∈ forest.without root.1 ∧
      (forest.without root.1).subtree other.1 = forest.subtree other.1 := by
  have hmem : other ∈ forest.without root.1 := by
    rw [Forest.without_root h hroot]
    exact List.mem_filter.mpr ⟨hother, by simpa using hne⟩
  refine ⟨hmem, ?_⟩
  rw [Forest.subtree, Forest.subtree, Forest.offspring_root h hother,
    Forest.offspring_root (h.sublist (Forest.without_sublist h hroot)) hmem]

theorem Forest.destroyed_without (h : forest.members.Nodup) {root : Nat × Family Nat}
    (hroot : root ∈ forest) {ps : List Nat} (hroots : ∀ p ∈ ps, forest.IsRoot p)
    (hnot : root.1 ∉ ps) : (∀ p ∈ ps, (forest.without root.1).IsRoot p) ∧
      (forest.without root.1).destroyed ps = forest.destroyed ps := by
  have hothers : ∀ p ∈ ps, ∃ other ∈ forest, other.1 = p ∧ other.1 ≠ root.1 := fun p hp => by
    obtain ⟨other, hother, rfl⟩ := List.mem_map.mp (hroots p hp)
    exact ⟨other, hother, rfl, fun heq => hnot (heq ▸ hp)⟩
  constructor
  · intro p hp
    obtain ⟨other, hother, rfl, hne⟩ := hothers p hp
    exact List.mem_map_of_mem (Forest.subtree_without h hroot hother hne).1
  · apply List.flatMap_congr
    intro p hp
    obtain ⟨other, hother, rfl, hne⟩ := hothers p hp
    exact (Forest.subtree_without h hroot hother hne).2

end Floppix.Pools
