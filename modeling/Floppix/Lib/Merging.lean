import Mathlib.Data.List.Nodup

/-! # Merging and halving

A merge takes the heads of two lists until one of them is empty. Which head it may take is
given by two relations, so that a merge that decides by anything at all is one of these, and
nothing but the nodes themselves is used to show that none is lost.

A sort halves the list, sorts both halves and merges them. For a merge that takes the left
head only when it is strictly below the right one, the pairs that have to be recognised as
such are known from the order alone.
-/

namespace Merging

variable {α : Type*} {Left Right : α → α → Prop} {xs ys l r out us vs : List α} {a b c : α}

/-- The merge may take the left head when `Left` holds of the two heads, and the right head
when `Right` does. -/
inductive Merges (Left Right : α → α → Prop) : List α → List α → List α → Prop
  | leftEmpty (r : List α) : Merges Left Right [] r r
  | rightEmpty (l : List α) : Merges Left Right l [] l
  | left {a b : α} {l r out : List α} (h : Left a b) (hrest : Merges Left Right l (b :: r) out) :
      Merges Left Right (a :: l) (b :: r) (a :: out)
  | right {a b : α} {l r out : List α} (h : Right a b)
      (hrest : Merges Left Right (a :: l) r out) : Merges Left Right (a :: l) (b :: r) (b :: out)

/-- Both halves are sorted and merged, when there are two nodes at least. -/
inductive Sorts (Left Right : α → α → Prop) : List α → List α → Prop
  | short {xs : List α} (h : xs.length < 2) : Sorts Left Right xs xs
  | halves {xs l r ys : List α} (h : 2 ≤ xs.length)
      (hl : Sorts Left Right (xs.take (xs.length / 2)) l)
      (hr : Sorts Left Right (xs.drop (xs.length / 2)) r) (hm : Merges Left Right l r ys) :
      Sorts Left Right xs ys

/-- The pairs of halves that the sort of a list comes to. -/
inductive Halved : List α → List α → List α → Prop
  | here {xs : List α} (h : 2 ≤ xs.length) :
      Halved xs (xs.take (xs.length / 2)) (xs.drop (xs.length / 2))
  | inLeft {xs l r : List α} (h : 2 ≤ xs.length) (hin : Halved (xs.take (xs.length / 2)) l r) :
      Halved xs l r
  | inRight {xs l r : List α} (h : 2 ≤ xs.length) (hin : Halved (xs.drop (xs.length / 2)) l r) :
      Halved xs l r

/-! ## No node is lost -/

theorem Merges.perm (h : Merges Left Right l r out) : out.Perm (l ++ r) := by
  induction h with
  | leftEmpty r => exact List.Perm.refl r
  | rightEmpty l => rw [List.append_nil]
  | left _ _ ih => exact ih.cons _
  | right _ _ ih => exact (ih.cons _).trans List.perm_middle.symm

theorem Merges.sublist_left (h : Merges Left Right l r out) : l.Sublist out := by
  induction h with
  | leftEmpty r => exact List.nil_sublist r
  | rightEmpty l => exact List.Sublist.refl l
  | left _ _ ih => exact ih.cons_cons _
  | right _ _ ih => exact ih.cons _

theorem Merges.sublist_right (h : Merges Left Right l r out) : r.Sublist out := by
  induction h with
  | leftEmpty r => exact List.Sublist.refl r
  | rightEmpty l => exact List.nil_sublist l
  | left _ _ ih => exact ih.cons _
  | right _ _ ih => exact ih.cons_cons _

theorem Merges.mono {Left' Right' : α → α → Prop} (h : Merges Left Right l r out)
    (hleft : ∀ a b, Left a b → Left' a b) (hright : ∀ a b, Right a b → Right' a b) :
    Merges Left' Right' l r out := by
  induction h with
  | leftEmpty r => exact .leftEmpty r
  | rightEmpty l => exact .rightEmpty l
  | left h _ ih => exact .left (hleft _ _ h) ih
  | right h _ ih => exact .right (hright _ _ h) ih

theorem Sorts.mono {Left' Right' : α → α → Prop} (h : Sorts Left Right xs ys)
    (hleft : ∀ a b, Left a b → Left' a b) (hright : ∀ a b, Right a b → Right' a b) :
    Sorts Left' Right' xs ys := by
  induction h with
  | short h => exact .short h
  | halves h _ _ hm ihl ihr => exact .halves h ihl ihr (hm.mono hleft hright)

theorem Sorts.perm (h : Sorts Left Right xs ys) : ys.Perm xs := by
  induction h with
  | short h => exact List.Perm.refl _
  | halves h _ _ hm ihl ihr =>
      have hperm := hm.perm.trans (ihl.append ihr)
      rw [List.take_append_drop] at hperm
      exact hperm

theorem Halved.subset (h : Halved xs l r) : l ⊆ xs ∧ r ⊆ xs := by
  induction h with
  | here h => exact ⟨List.take_subset .., List.drop_subset ..⟩
  | inLeft h _ ih =>
      exact ⟨List.Subset.trans ih.1 (List.take_subset ..),
        List.Subset.trans ih.2 (List.take_subset ..)⟩
  | inRight h _ ih =>
      exact ⟨List.Subset.trans ih.1 (List.drop_subset ..),
        List.Subset.trans ih.2 (List.drop_subset ..)⟩

/-! ## The order -/

/-- A strict order of the nodes of a list whose incomparable nodes are as good as equal. -/
structure WeakOrder (lt : α → α → Prop) (xs : List α) : Prop where
  asymm : ∀ a ∈ xs, ∀ b ∈ xs, lt a b → ¬ lt b a
  between : ∀ a ∈ xs, ∀ b ∈ xs, ∀ c ∈ xs, lt a c → lt a b ∨ lt b c

variable {lt take : α → α → Prop}

theorem WeakOrder.subset (h : WeakOrder lt xs) (hsub : ys ⊆ xs) : WeakOrder lt ys where
  asymm a ha b hb := h.asymm a (hsub ha) b (hsub hb)
  between a ha b hb c hc := h.between a (hsub ha) b (hsub hb) c (hsub hc)

theorem WeakOrder.trans (h : WeakOrder lt xs) (ha : a ∈ xs) (hb : b ∈ xs) (hc : c ∈ xs)
    (hab : lt a b) (hbc : lt b c) : lt a c := by
  obtain hac | hcb := h.between a ha c hc b hb hab
  · exact hac
  · exact absurd hcb (h.asymm b hb c hc hbc)

def Ascending (lt : α → α → Prop) (ys : List α) : Prop := ys.Pairwise fun a b => ¬ lt b a

/-- The first node comes before the second one when `xs` is sorted: it is below it, or it is
as good as equal and behind it. -/
def Precedes (lt : α → α → Prop) (xs : List α) (a b : α) : Prop :=
  ¬ lt b a ∧ (lt a b ∨ [b, a].Sublist xs)

/-- The least nodes of the right half above a node of the left half, the last one of them if
there are several, is one that the merge takes the node before. -/
def Recognised (lt take : α → α → Prop) (left right : List α) : Prop :=
  ∀ a ∈ left, ∀ us b vs, right = us ++ b :: vs → lt a b →
    (∀ c ∈ us, lt a c → ¬ lt c b) → (∀ c ∈ vs, lt a c → lt b c) → take a b

theorem Precedes.mono (h : Precedes lt xs a b) (hsub : xs.Sublist ys) : Precedes lt ys a b :=
  ⟨h.1, h.2.imp_right fun hba => hba.trans hsub⟩

theorem ascending_of_precedes (h : ys.Pairwise (Precedes lt xs)) : Ascending lt ys :=
  h.imp fun hab => hab.1

/-- Two nodes are in one order only. -/
theorem not_sublist_both (h : xs.Nodup) (hab : [a, b].Sublist xs) : ¬ [b, a].Sublist xs := by
  induction xs with
  | nil => exact absurd hab (by simp)
  | cons x xs ih =>
      obtain ⟨hx, hxs⟩ := List.nodup_cons.mp h
      intro hba
      rw [List.cons_sublist_cons'] at hab hba
      obtain hab | ⟨rfl, hb⟩ := hab
      · obtain hba | ⟨rfl, -⟩ := hba
        · exact ih hxs hab hba
        · exact hx (hab.subset (by simp))
      · obtain hba | ⟨rfl, ha⟩ := hba
        · exact hx (hba.subset (by simp))
        · exact hx (ha.subset (by simp))

/-! ## Merging two sorted halves -/

/-- What is left of the right half while it is merged: its nodes are in order, and those that
have been taken are not above a node that is left of the left half. -/
structure Frontier (lt : α → α → Prop) (right l r : List α) : Prop where
  ordered : r.Pairwise (Precedes lt right)
  subset : r ⊆ right
  taken : ∀ c ∈ right, c ∉ r → ∀ a ∈ l, ¬ lt a c

variable {left right : List α}

theorem Frontier.tail (h : Frontier lt right (a :: l) r) : Frontier lt right l r where
  ordered := h.ordered
  subset := h.subset
  taken c hc hcr x hx := h.taken c hc hcr x (List.mem_cons_of_mem a hx)

theorem Frontier.advance (h : Frontier lt right l (b :: r)) (hb : ∀ a ∈ l, ¬ lt a b) :
    Frontier lt right l r where
  ordered := h.ordered.of_cons
  subset := List.Subset.trans (List.subset_cons_self b r) h.subset
  taken c hc hcr x hx := by
    by_cases hcb : c = b
    · rw [hcb]
      exact hb x hx
    · exact h.taken c hc (fun hmem => (List.mem_cons.mp hmem).elim hcb hcr) x hx

theorem sublist_of_split (h : right = us ++ b :: vs) (hc : c ∈ vs) : [b, c].Sublist right := by
  rw [h]
  exact ((List.singleton_sublist.mpr hc).cons_cons b).trans (List.sublist_append_right us _)

/-- When a head of the left half is below the head of the right half, that one is the least
node above it. -/
theorem Frontier.recognised (h : Frontier lt right (a :: l) (b :: r))
    (hrec : Recognised lt take left right) (horder : WeakOrder lt right) (hnodup : right.Nodup)
    (ha : a ∈ left) (hab : lt a b) : take a b := by
  have hb : b ∈ right := h.subset (List.mem_cons_self ..)
  have hahead : a ∈ a :: l := List.mem_cons_self ..
  obtain ⟨us, vs, hsplit⟩ := List.append_of_mem hb
  apply hrec a ha us b vs hsplit hab
  · intro c hc hac
    have hcr : c ∈ right := hsplit ▸ List.mem_append_left (b :: vs) hc
    by_cases hmem : c ∈ b :: r
    · obtain rfl | hmem := List.mem_cons.mp hmem
      · exact fun hcc => horder.asymm c hb c hb hcc hcc
      · exact ((List.pairwise_cons.mp h.ordered).1 c hmem).1
    · exact absurd hac (h.taken c hcr hmem a hahead)
  · intro c hc hac
    have hcr : c ∈ right := hsplit ▸ List.mem_append_right us (List.mem_cons_of_mem b hc)
    have hbc := sublist_of_split hsplit hc
    by_cases hmem : c ∈ b :: r
    · obtain rfl | hmem := List.mem_cons.mp hmem
      · exact absurd hbc (not_sublist_both hnodup hbc)
      · obtain hlt | hcb := ((List.pairwise_cons.mp h.ordered).1 c hmem).2
        · exact hlt
        · exact absurd hcb (not_sublist_both hnodup hbc)
    · exact absurd hac (h.taken c hcr hmem a hahead)

/-- The head of the right half that is above the left head is the least node above it. -/
theorem Frontier.eq_least (h : Frontier lt right (a :: l) (b :: r)) (hnodup : right.Nodup)
    (hab : lt a b) (hsplit : right = us ++ c :: vs) (hac : lt a c)
    (hus : ∀ x ∈ us, lt a x → ¬ lt x c) (hvs : ∀ x ∈ vs, lt a x → lt c x) : b = c := by
  have hb : b ∈ right := h.subset (List.mem_cons_self ..)
  have hc : c ∈ right := by simp [hsplit]
  have hmem : c ∈ b :: r := by
    by_contra hnot
    exact h.taken c hc hnot a (List.mem_cons_self ..) hac
  obtain rfl | hmem := List.mem_cons.mp hmem
  · rfl
  · have hprecedes := (List.pairwise_cons.mp h.ordered).1 c hmem
    have hbsplit := hb
    rw [hsplit, List.mem_append, List.mem_cons] at hbsplit
    obtain hbus | rfl | hbvs := hbsplit
    · -- the head is in front of the other one, and would be behind it in the order
      obtain hbc | hcb := hprecedes.2
      · exact absurd hbc (hus b hbus hab)
      · obtain ⟨ws, zs, rfl⟩ := List.append_of_mem hbus
        have hsplit' : right = ws ++ b :: (zs ++ c :: vs) := by simp [hsplit]
        have hbc := sublist_of_split hsplit' (c := c) (by simp)
        exact absurd hcb (not_sublist_both hnodup hbc)
    · rfl
    · exact absurd (hvs b hbvs hab) hprecedes.1

/-- The merge of two halves in order is in order, if the pairs that it has to recognise are. -/
theorem Merges.ordered (hm : Merges take (fun a b => ¬ take a b) l r out)
    (hrec : Recognised lt take left right) (horder : WeakOrder lt (left ++ right))
    (hnodup : right.Nodup) (hbelow : ∀ a ∈ left, ∀ b ∈ right, take a b → lt a b)
    (hl : l.Pairwise (Precedes lt left)) (hsub : l ⊆ left) (hf : Frontier lt right l r) :
    out.Pairwise (Precedes lt (left ++ right)) := by
  have hleft : ∀ {x}, x ∈ left → x ∈ left ++ right := fun hx => List.mem_append_left right hx
  have hright : ∀ {x}, x ∈ right → x ∈ left ++ right := fun hx => List.mem_append_right left hx
  induction hm with
  | leftEmpty r => exact hf.ordered.imp fun hab => hab.mono (List.sublist_append_right ..)
  | rightEmpty l => exact hl.imp fun hab => hab.mono (List.sublist_append_left ..)
  | @left a b l r out htake hrest ih =>
      obtain ⟨hfirst, hl⟩ := List.pairwise_cons.mp hl
      obtain ⟨ha, hsub⟩ := List.cons_subset.mp hsub
      have hb : b ∈ right := hf.subset (List.mem_cons_self ..)
      have hab := hbelow a ha b hb htake
      refine List.pairwise_cons.mpr ⟨fun y hy => ?_, ih hl hsub hf.tail⟩
      obtain hy | hy := List.mem_append.mp (hrest.perm.mem_iff.mp hy)
      · exact (hfirst y hy).mono (List.sublist_append_left ..)
      · -- what is left of the right half is not below its head
        have hyr := hf.subset hy
        have hnot : ¬ lt y b := by
          obtain rfl | hy := List.mem_cons.mp hy
          · exact fun hyy => horder.asymm y (hright hyr) y (hright hyr) hyy hyy
          · exact ((List.pairwise_cons.mp hf.ordered).1 y hy).1
        have hay : lt a y :=
          (horder.between a (hleft ha) y (hright hyr) b (hright hb) hab).resolve_right hnot
        exact ⟨horder.asymm a (hleft ha) y (hright hyr) hay, Or.inl hay⟩
  | @right a b l r out htake hrest ih =>
      obtain ⟨hfirst, -⟩ := List.pairwise_cons.mp hl
      obtain ⟨ha, hsub'⟩ := List.cons_subset.mp hsub
      have hb : b ∈ right := hf.subset (List.mem_cons_self ..)
      have horder' : WeakOrder lt right := horder.subset fun x hx => hright hx
      have hab : ¬ lt a b := fun hab => htake (hf.recognised hrec horder' hnodup ha hab)
      have hnot : ∀ x ∈ a :: l, ¬ lt x b := by
        intro x hx hxb
        obtain rfl | hx := List.mem_cons.mp hx
        · exact hab hxb
        · have hbetween := horder.between x (hleft (hsub' hx)) a (hleft ha) b (hright hb) hxb
          exact hbetween.elim (hfirst x hx).1 hab
      refine List.pairwise_cons.mpr ⟨fun y hy => ?_, ih hl hsub (hf.advance hnot)⟩
      obtain hy | hy := List.mem_append.mp (hrest.perm.mem_iff.mp hy)
      · refine ⟨hnot y hy, Or.inr ?_⟩
        have hone := List.singleton_sublist.mpr (hsub hy)
        exact hone.append (List.singleton_sublist.mpr hb)
      · have hprecedes := (List.pairwise_cons.mp hf.ordered).1 y hy
        exact hprecedes.mono (List.sublist_append_right ..)

theorem Merges.recognises (hm : Merges take (fun a b => ¬ take a b) l r out)
    (hnodup : right.Nodup)
    (hbelow : ∀ a ∈ left, ∀ b ∈ right, take a b → lt a b) (hsub : l ⊆ left)
    (hf : Frontier lt right l r) (hasc : Ascending lt out) (ha : a ∈ l)
    (hsplit : right = us ++ c :: vs) (hac : lt a c) (hus : ∀ x ∈ us, lt a x → ¬ lt x c)
    (hvs : ∀ x ∈ vs, lt a x → lt c x) : take a c := by
  induction hm with
  | leftEmpty r => exact absurd ha List.not_mem_nil
  | rightEmpty l =>
      have hc : c ∈ right := by simp [hsplit]
      exact absurd hac (hf.taken c hc List.not_mem_nil a ha)
  | @left a' b l r out htake hrest ih =>
      obtain rfl | ha := List.mem_cons.mp ha
      · have hb : b ∈ right := hf.subset (List.mem_cons_self ..)
        have hab := hbelow a (hsub (List.mem_cons_self ..)) b hb htake
        rw [← hf.eq_least hnodup hab hsplit hac hus hvs]
        exact htake
      · exact ih (List.cons_subset.mp hsub).2 hf.tail hasc.of_cons ha
  | @right a' b l r out htake hrest ih =>
      obtain ⟨hfirst, hasc⟩ := List.pairwise_cons.mp hasc
      have hnot : ∀ x ∈ a' :: l, ¬ lt x b := fun x hx =>
        hfirst x (hrest.sublist_left.subset hx)
      exact ih hsub (hf.advance hnot) hasc ha

/-! ## Sorting -/

theorem Frontier.start (hr : r.Pairwise (Precedes lt right)) (hperm : r.Perm right) :
    Frontier lt right l r where
  ordered := hr
  subset := hperm.subset
  taken _ hc hcr := absurd (hperm.mem_iff.mpr hc) hcr

/-- A sort orders the nodes, those that are as good as equal in reverse, if every merge
recognises the pairs that it has to. -/
theorem Sorts.ordered (h : Sorts take (fun a b => ¬ take a b) xs ys) (horder : WeakOrder lt xs)
    (hnodup : xs.Nodup) (hbelow : ∀ a ∈ xs, ∀ b ∈ xs, take a b → lt a b)
    (hrec : ∀ left right, Halved xs left right → Recognised lt take left right) :
    ys.Pairwise (Precedes lt xs) := by
  induction h with
  | @short xs h =>
      cases xs with
      | nil => exact List.Pairwise.nil
      | cons a xs =>
          rw [List.length_cons] at h
          obtain rfl := List.length_eq_zero_iff.mp (show xs.length = 0 by omega)
          exact List.pairwise_singleton ..
  | @halves xs l r ys h hl hr hm ihl ihr =>
      have hleft : xs.take (xs.length / 2) ⊆ xs := List.take_subset ..
      have hright : xs.drop (xs.length / 2) ⊆ xs := List.drop_subset ..
      have hnodupr : (xs.drop (xs.length / 2)).Nodup := hnodup.sublist (List.drop_sublist ..)
      have hfirst := ihl (horder.subset hleft) (hnodup.sublist (List.take_sublist ..))
        (fun a ha b hb => hbelow a (hleft ha) b (hleft hb))
        fun _ _ hin => hrec _ _ (.inLeft h hin)
      have hsecond := ihr (horder.subset hright) hnodupr
        (fun a ha b hb => hbelow a (hright ha) b (hright hb))
        fun _ _ hin => hrec _ _ (.inRight h hin)
      have hwhole := List.take_append_drop (xs.length / 2) xs
      have hordered := hm.ordered (hrec _ _ (.here h)) (by rwa [hwhole]) hnodupr
        (fun a ha b hb => hbelow a (hleft ha) b (hright hb)) hfirst hl.perm.subset
        (.start hsecond hr.perm)
      rwa [hwhole] at hordered

/-- A sort orders the nodes exactly if every merge recognises the pairs that it has to: a pair
that it takes in the wrong order stays so. -/
theorem Sorts.ascending_iff (h : Sorts take (fun a b => ¬ take a b) xs ys)
    (horder : WeakOrder lt xs) (hnodup : xs.Nodup)
    (hbelow : ∀ a ∈ xs, ∀ b ∈ xs, take a b → lt a b) :
    Ascending lt ys ↔
      ∀ left right, Halved xs left right → Recognised lt take left right := by
  refine ⟨fun hasc => ?_, fun hrec => ascending_of_precedes (h.ordered horder hnodup hbelow hrec)⟩
  induction h with
  | short hshort =>
      rintro left right (hlong | ⟨hlong, -⟩ | ⟨hlong, -⟩) <;> omega
  | @halves xs l r ys hlong hl hr hm ihl ihr =>
      have hleft : xs.take (xs.length / 2) ⊆ xs := List.take_subset ..
      have hright : xs.drop (xs.length / 2) ⊆ xs := List.drop_subset ..
      have hnodupr : (xs.drop (xs.length / 2)).Nodup := hnodup.sublist (List.drop_sublist ..)
      have hbelowr := fun a ha b hb => hbelow a (hright ha) b (hright hb)
      have hrecl := ihl (horder.subset hleft) (hnodup.sublist (List.take_sublist ..))
        (fun a ha b hb => hbelow a (hleft ha) b (hleft hb)) (hasc.sublist hm.sublist_left)
      have hrecr := ihr (horder.subset hright) hnodupr hbelowr (hasc.sublist hm.sublist_right)
      have hsecond := hr.ordered (horder.subset hright) hnodupr hbelowr hrecr
      intro left right hin
      cases hin with
      | inLeft _ hin => exact hrecl left right hin
      | inRight _ hin => exact hrecr left right hin
      | here =>
          intro a ha us c vs hsplit hac hus hvs
          exact hm.recognises hnodupr (fun a ha b hb => hbelow a (hleft ha) b (hright hb))
            hl.perm.subset (.start hsecond hr.perm) hasc (hl.perm.mem_iff.mpr ha) hsplit hac hus
            hvs

end Merging
