import Mathlib.Data.List.Nodup
import Mathlib.Logic.Relation

/-! # Trees of children and brothers

A node points to its first child and to its next brother. A family is the list of
children of one node with everything below them, as a binary tree of these two
pointers.
-/

namespace Kinship

inductive Family (α : Type*) where
  | nil
  | node (a : α) (children brothers : Family α)

namespace Family

variable {α : Type*}

def members : Family α → List α
  | nil => []
  | node a children brothers => a :: (children.members ++ brothers.members)

def postorder : Family α → List α
  | nil => []
  | node a children brothers => children.postorder ++ a :: brothers.postorder

def size : Family α → Nat
  | nil => 0
  | node _ children brothers => children.size + brothers.size + 1

theorem mem_postorder {f : Family α} {a : α} : a ∈ f.postorder ↔ a ∈ f.members := by
  induction f with
  | nil => rfl
  | node b c d ihc ihd =>
      simp only [postorder, members, List.mem_append, List.mem_cons, ihc, ihd]
      exact or_left_comm

theorem nodup_postorder {f : Family α} (h : f.members.Nodup) : f.postorder.Nodup := by
  induction f with
  | nil => exact List.nodup_nil
  | node b c d ihc ihd =>
      simp only [members, List.nodup_cons, List.nodup_append, List.mem_append] at h
      obtain ⟨hb, hc, hd, hcd⟩ := h
      simp only [postorder, List.nodup_append, List.nodup_cons, List.mem_cons, mem_postorder]
      refine ⟨ihc hc, ⟨fun hm => hb (Or.inr hm), ihd hd⟩, ?_⟩
      rintro x hx y (rfl | hy) rfl
      · exact hb (Or.inl hx)
      · exact hcd x hx x hy rfl

def offspring [DecidableEq α] (x : α) : Family α → Family α
  | nil => nil
  | node a children brothers =>
      if a = x then children
      else if x ∈ children.members then children.offspring x
      else brothers.offspring x

theorem offspring_subset [DecidableEq α] {f : Family α} {x : α} :
    (f.offspring x).members ⊆ f.members := by
  induction f with
  | nil => exact fun _ h => h
  | node a c b ihc ihb =>
      intro y hy
      simp only [offspring] at hy
      simp only [members, List.mem_cons, List.mem_append]
      split at hy
      · exact Or.inr (Or.inl hy)
      · split at hy
        · exact Or.inr (Or.inl (ihc hy))
        · exact Or.inr (Or.inr (ihb hy))

/-- The node and what is below it stand in this order. -/
theorem offspring_sublist [DecidableEq α] {f : Family α} {x : α} (hx : x ∈ f.members) :
    (x :: (f.offspring x).members).Sublist f.members := by
  induction f with
  | nil => cases hx
  | node a c b ihc ihb =>
      simp only [offspring, members]
      split
      · rename_i hax
        subst hax
        exact (List.sublist_append_left ..).cons_cons a
      · rename_i hax
        split
        · rename_i hxc
          exact ((ihc hxc).trans (List.sublist_append_left ..)).cons a
        · rename_i hxc
          simp only [members, List.mem_cons, Ne.symm hax, hxc, List.mem_append, false_or] at hx
          exact ((ihb hx).trans (List.sublist_append_right ..)).cons a

/-- A node is not below itself. -/
theorem nodup_offspring [DecidableEq α] {f : Family α} {x : α} (h : f.members.Nodup)
    (hx : x ∈ f.members) : (x :: (f.offspring x).members).Nodup :=
  h.sublist (offspring_sublist hx)

def without [DecidableEq α] (x : α) : Family α → Family α
  | nil => nil
  | node a children brothers =>
      if a = x then brothers.without x
      else node a (children.without x) (brothers.without x)

theorem without_of_not_mem [DecidableEq α] {f : Family α} {x : α} (h : x ∉ f.members) :
    f.without x = f := by
  induction f with
  | nil => rfl
  | node a c b ihc ihb =>
      simp only [members, List.mem_cons, List.mem_append, not_or] at h
      rw [without, if_neg (Ne.symm h.1), ihc h.2.1, ihb h.2.2]

def addChild [DecidableEq α] (parent new : α) : Family α → Family α
  | nil => nil
  | node a children brothers =>
      if a = parent then node a (node new nil children) brothers
      else node a (children.addChild parent new) (brothers.addChild parent new)

theorem addChild_of_not_mem [DecidableEq α] {parent new : α} {f : Family α}
    (h : parent ∉ f.members) : f.addChild parent new = f := by
  induction f with
  | nil => rfl
  | node a c b ihc ihb =>
      simp only [members, List.mem_cons, List.mem_append, not_or] at h
      rw [addChild, if_neg (Ne.symm h.1), ihc h.2.1, ihb h.2.2]

theorem mem_addChild [DecidableEq α] {parent new x : α} {f : Family α} :
    x ∈ (f.addChild parent new).members ↔ x ∈ f.members ∨ (x = new ∧ parent ∈ f.members) := by
  induction f with
  | nil => simp [addChild, members]
  | node a c b ihc ihb =>
      by_cases ha : a = parent
      · subst ha
        simp only [addChild, if_true, members, List.mem_cons, List.mem_append, List.nil_append,
          true_or, and_true, or_assoc, or_left_comm, or_comm]
      · simp only [addChild, if_neg ha, members, List.mem_cons, List.mem_append, ihc, ihb,
          Ne.symm ha, false_or, and_or_left, or_assoc, or_left_comm]

theorem addChild_perm [DecidableEq α] {parent new : α} {f : Family α} (h : f.members.Nodup)
    (hparent : parent ∈ f.members) :
    (f.addChild parent new).members.Perm (new :: f.members) := by
  induction f with
  | nil => cases hparent
  | node a c b ihc ihb =>
      simp only [members, List.nodup_cons, List.nodup_append, List.mem_append] at h
      obtain ⟨hab, hc, hb, hcb⟩ := h
      by_cases ha : a = parent
      · rw [addChild, if_pos ha]
        exact .swap new a _
      · rw [addChild, if_neg ha]
        simp only [members, List.mem_cons, Ne.symm ha, false_or, List.mem_append] at hparent
        rcases hparent with hp | hp
        · -- the other side does not have the parent
          rw [addChild_of_not_mem fun hpb => hcb parent hp parent hpb rfl]
          exact (((ihc hc hp).append_right _).cons a).trans (.swap new a _)
        · rw [addChild_of_not_mem fun hpc => hcb parent hpc parent hp rfl]
          have hbrothers := ((ihb hb hp).append_left c.members).trans List.perm_middle
          exact (hbrothers.cons a).trans (.swap new a _)

/-! ## Links -/

def Linked (links : α → Option (Option α × Option α)) : Family α → Option α → Prop
  | nil, ptr => ptr = none
  | node a children brothers, ptr => ptr = some a ∧ ∃ child brother,
      links a = some (child, brother) ∧ Linked links children child ∧
        Linked links brothers brother

variable {links links' : α → Option (Option α × Option α)}

theorem Linked.congr {f : Family α} {ptr : Option α} (h : Linked links f ptr)
    (hsame : ∀ a ∈ f.members, links' a = links a) : Linked links' f ptr := by
  induction f generalizing ptr with
  | nil => exact h
  | node a c b ihc ihb =>
      obtain ⟨hp, child, brother, hl, hc, hb⟩ := h
      refine ⟨hp, child, brother, (hsame a (by simp [members])).trans hl, ?_, ?_⟩
      · exact ihc hc fun x hx => hsame x (by simp [members, hx])
      · exact ihb hb fun x hx => hsame x (by simp [members, hx])

theorem Linked.offspring [DecidableEq α] {f : Family α} {ptr : Option α} (h : Linked links f ptr)
    {x : α} (hx : x ∈ f.members) :
    ∃ child brother, links x = some (child, brother) ∧ Linked links (f.offspring x) child := by
  induction f generalizing ptr with
  | nil => cases hx
  | node a c b ihc ihb =>
      obtain ⟨-, child, brother, hl, hc, hb⟩ := h
      simp only [Family.offspring]
      split
      · rename_i hax
        exact ⟨child, brother, hax ▸ hl, hc⟩
      · rename_i hax
        split
        · rename_i hxc
          exact ihc hc hxc
        · rename_i hxc
          simp only [members, List.mem_cons, Ne.symm hax, hxc, List.mem_append, false_or] at hx
          exact ihb hb hx

theorem Linked.addChild [DecidableEq α] {f : Family α} {ptr : Option α} {parent new : α}
    {child brother : Option α} (h : Linked links f ptr) (hnodup : f.members.Nodup)
    (hnew : new ∉ f.members) (hparent : links parent = some (child, brother))
    (hparent' : links' parent = some (some new, brother)) (hnew' : links' new = some (none, child))
    (hsame : ∀ a, a ≠ parent → a ≠ new → links' a = links a) :
    Linked links' (f.addChild parent new) ptr := by
  induction f generalizing ptr with
  | nil => exact h
  | node a c b ihc ihb =>
      obtain ⟨hp, child', brother', hl, hc, hb⟩ := h
      simp only [members, List.mem_cons, List.mem_append, not_or] at hnew
      simp only [members, List.nodup_cons, List.nodup_append, List.mem_append, not_or] at hnodup
      obtain ⟨hna, hnc, hnb⟩ := hnew
      obtain ⟨⟨hac, hab⟩, hcn, hbn, -⟩ := hnodup
      by_cases ha : a = parent
      · subst ha
        rw [hparent] at hl
        cases hl
        rw [Family.addChild, if_pos rfl]
        refine ⟨hp, some new, brother, hparent', ⟨rfl, none, child, hnew', rfl, ?_⟩, ?_⟩
        · exact hc.congr fun x hx =>
            hsame x (fun h => hac (h ▸ hx)) (fun h => hnc (h ▸ hx))
        · exact hb.congr fun x hx =>
            hsame x (fun h => hab (h ▸ hx)) (fun h => hnb (h ▸ hx))
      · rw [Family.addChild, if_neg ha]
        exact ⟨hp, child', brother', (hsame a ha (Ne.symm hna)).trans hl, ihc hc hcn hnc,
          ihb hb hbn hnb⟩

/-! ## What links lead to -/

def Points (links : α → Option (Option α × Option α)) (a b : α) : Prop :=
  ∃ child brother, links a = some (child, brother) ∧ (child = some b ∨ brother = some b)

theorem Linked.head_mem {f : Family α} {a : α} (h : Linked links f (some a)) : a ∈ f.members := by
  cases f with
  | nil => cases h
  | node b c d =>
      cases h.1
      simp [members]

theorem Linked.points_mem {f : Family α} {ptr : Option α} (h : Linked links f ptr) {a b : α}
    (ha : a ∈ f.members) (hab : Points links a b) : b ∈ f.members := by
  induction f generalizing ptr with
  | nil => cases ha
  | node x c d ihc ihd =>
      obtain ⟨-, child, brother, hl, hc, hd⟩ := h
      simp only [members, List.mem_cons, List.mem_append] at ha ⊢
      rcases ha with rfl | ha | ha
      · obtain ⟨child', brother', hl', hp⟩ := hab
        rw [hl] at hl'
        cases hl'
        rcases hp with rfl | rfl
        · exact Or.inr (Or.inl hc.head_mem)
        · exact Or.inr (Or.inr hd.head_mem)
      · exact Or.inr (Or.inl (ihc hc ha))
      · exact Or.inr (Or.inr (ihd hd ha))

theorem Linked.reaches_mem {f : Family α} {ptr : Option α} (h : Linked links f ptr) {a b : α}
    (ha : a ∈ f.members) (hab : Relation.ReflTransGen (Points links) a b) : b ∈ f.members := by
  induction hab with
  | refl => exact ha
  | tail _ hstep ih => exact h.points_mem ih hstep

/-- They lead to every node of it. -/
theorem Linked.reaches {f : Family α} {a b : α} (h : Linked links f (some a))
    (hb : b ∈ f.members) : Relation.ReflTransGen (Points links) a b := by
  induction f generalizing a with
  | nil => cases hb
  | node x c d ihc ihd =>
      obtain ⟨hp, child, brother, hl, hc, hd⟩ := h
      cases hp
      simp only [members, List.mem_cons, List.mem_append] at hb
      rcases hb with rfl | hb | hb
      · exact .refl
      · cases c with
        | nil => cases hb
        | node y c₁ c₂ =>
            have hch := hc.1
            subst hch
            exact .head ⟨_, _, hl, Or.inl rfl⟩ (ihc hc hb)
      · cases d with
        | nil => cases hb
        | node y d₁ d₂ =>
            have hbr := hd.1
            subst hbr
            exact .head ⟨_, _, hl, Or.inr rfl⟩ (ihd hd hb)

end Family

end Kinship
