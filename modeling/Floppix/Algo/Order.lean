import Floppix.Algo.Sort

/-! # Sorting in order

A merge takes its left node when the comparison function answers `-1`. One that answers with
another negative number, as `strcmp` may, has its left node taken for a greater one.
-/

namespace Floppix.Lists

open LinkedList Merging Outcome

variable {α : Type} [DecidableEq α]

def ofFunction (compar : α → α → Int) : Compare Unit α := fun state _ a b => (compar a b, state)

variable {compar : α → α → Int} {w : Sorting Unit α} {xs ys : List α} {sizeMax rounds : Nat}

/-- The signs of the answers are those of a total preorder of the nodes. -/
structure Preordered (compar : α → α → Int) (xs : List α) : Prop where
  flip : ∀ a ∈ xs, ∀ b ∈ xs, compar a b < 0 ↔ 0 < compar b a
  trans : ∀ a ∈ xs, ∀ b ∈ xs, ∀ c ∈ xs, compar a b ≤ 0 → compar b c ≤ 0 → compar a c ≤ 0

def InOrder (compar : α → α → Int) (w : Sorting Unit α) : Prop :=
  ∃ ys, Path (nextOf w.nodes) w.list.head ys ∧
    ∀ a ∈ ys, ∀ b, nextOf w.nodes a = some b → compar a b ≤ 0

def Below (compar : α → α → Int) (a b : α) : Prop := compar a b < 0

def LeftFirst (compar : α → α → Int) (a b : α) : Prop := compar a b = -1

/-- Wherever the list is halved, a node of the left half is compared with the least node of
the right half that it is below, the last one if there are several, by a `-1`. -/
def AnswersMinusOne (compar : α → α → Int) (xs : List α) : Prop :=
  ∀ left right, Halved xs left right → Recognised (Below compar) (LeftFirst compar) left right

omit [DecidableEq α] in
theorem Preordered.weakOrder (h : Preordered compar xs) : WeakOrder (Below compar) xs where
  asymm a ha b hb hab hba := by
    have hflip := (h.flip a ha b hb).mp hab
    unfold Below at hba
    omega
  between a ha b hb c hc hac := by
    by_contra hnot
    obtain ⟨hab, hbc⟩ := not_or.mp hnot
    have hba : compar b a ≤ 0 := Int.not_lt.mp (mt (h.flip a ha b hb).mpr hab)
    have hcb : compar c b ≤ 0 := Int.not_lt.mp (mt (h.flip b hb c hc).mpr hbc)
    have hca := h.trans c hc b hb a ha hcb hba
    have hpos := (h.flip a ha c hc).mp hac
    omega

omit [DecidableEq α] in
theorem inOrder_iff (h : Preordered compar ys) (hpath : Path (nextOf w.nodes) w.list.head ys) :
    InOrder compar w ↔ Ascending (Below compar) ys := by
  have hpairs : ys.Pairwise (fun a b => compar a b ≤ 0) ↔ Ascending (Below compar) ys := by
    refine List.Pairwise.iff_of_mem fun {a b} ha hb => ?_
    rw [Below, h.flip b hb a ha, Int.not_lt]
  rw [← hpairs, hpath.pairwise_iff h.trans]
  constructor
  · rintro ⟨zs, hzs, hall⟩
    rwa [← Chain.unique hzs hpath]
  · exact fun hall => ⟨ys, hpath, hall⟩

omit [DecidableEq α] in
theorem Preordered.perm (h : Preordered compar xs) (hperm : ys.Perm xs) :
    Preordered compar ys where
  flip a ha b hb := h.flip a (hperm.subset ha) b (hperm.subset hb)
  trans a ha b hb c hc := h.trans a (hperm.subset ha) b (hperm.subset hb) c (hperm.subset hc)

theorem mergesort_ofFunction (hpath : Path (nextOf w.nodes) w.list.head xs)
    (hsize : w.list.size = xs.length) (hrounds : xs.length < rounds) :
    Yields False (mergesort sizeMax (ofFunction compar) rounds w) fun w' =>
      ∃ ys, Sorts (LeftFirst compar) (fun a b => ¬ LeftFirst compar a b) xs ys ∧
        Sorted sizeMax w w' xs ys := by
  apply (mergesort_sorts sizeMax (ofFunction compar) hpath hsize hrounds).mono
  rintro w' - ⟨ys, hsorts, hsorted⟩
  refine ⟨ys, hsorts.mono ?_ ?_, hsorted⟩
  · rintro a b ⟨_, _, hleft⟩
    exact hleft
  · rintro a b ⟨_, _, hright⟩
    exact hright

/-- For a comparison function whose signs are a total preorder every node compares less than
or equal to its successor after the sort, exactly if the function answers `-1` where a merge
has to see that a left node is below a right one. -/
theorem mergesort_inOrder_iff (sizeMax : Nat) (compar : α → α → Int) (w : Sorting Unit α)
    (xs : List α) (h : Represents w.list w.nodes xs) (hsize : w.list.size = xs.length)
    (hpre : Preordered compar xs) (rounds : Nat) (hrounds : xs.length < rounds) :
    (∃ w', mergesort sizeMax (ofFunction compar) rounds w = .ok w' ∧ InOrder compar w') ↔
      AnswersMinusOne compar xs := by
  obtain ⟨w', hok, ys, hsorts, hsorted⟩ :=
    (mergesort_ofFunction h.forward hsize hrounds).exists_ok not_false
  have hbelow : ∀ a ∈ xs, ∀ b ∈ xs, LeftFirst compar a b → Below compar a b := by
    intro a _ b _ hab
    unfold LeftFirst at hab
    unfold Below
    omega
  have hiff := hsorts.ascending_iff hpre.weakOrder h.nodup hbelow
  rw [← inOrder_iff (hpre.perm hsorts.perm) hsorted.path] at hiff
  rw [AnswersMinusOne, ← hiff]
  constructor
  · rintro ⟨w'', hok', hinOrder⟩
    rw [hok] at hok'
    cases hok'
    exact hinOrder
  · exact fun hinOrder => ⟨w', hok, hinOrder⟩

omit [DecidableEq α] in
/-- A function that answers every smaller node with `-1` is understood. -/
theorem answersMinusOne_of_threeWay
    (h : ∀ a ∈ xs, ∀ b ∈ xs, compar a b < 0 → compar a b = -1) : AnswersMinusOne compar xs := by
  intro left right hin a ha us b vs hsplit hab _ _
  have hb : b ∈ right := by simp [hsplit]
  exact h a (hin.subset.1 ha) b (hin.subset.2 hb) hab

def threeWay (a b : Nat) : Int := if a < b then -1 else if b < a then 1 else 0

theorem threeWay_answersMinusOne (xs : List Nat) : AnswersMinusOne threeWay xs := by
  apply answersMinusOne_of_threeWay
  intro a _ b _ hab
  unfold threeWay at hab ⊢
  split at hab
  · simp [*]
  · split at hab <;> omega

theorem threeWay_preordered (xs : List Nat) : Preordered threeWay xs where
  flip a _ b _ := by
    unfold threeWay
    split <;> split <;> omega
  trans a _ b _ c _ hab hbc := by
    unfold threeWay at *
    split at hab <;> split at hbc <;> split <;> omega

/-- Three nodes get into the order of a function that answers `-1`. -/
theorem threeNodes_inOrder :
    ∃ w', mergesort (2 ^ 64) (ofFunction threeWay) 4 ⟨⟨some 1, some 3, 3⟩, threeNodes, ()⟩ =
      .ok w' ∧ InOrder threeWay w' :=
  (mergesort_inOrder_iff (2 ^ 64) threeWay ⟨⟨some 1, some 3, 3⟩, threeNodes, ()⟩ [1, 2, 3]
    threeNodes_represents rfl (threeWay_preordered _) 4 (by decide)).mpr
    (threeWay_answersMinusOne _)

def difference (a b : Nat) : Int := a - b

theorem difference_preordered (xs : List Nat) : Preordered difference xs where
  flip a _ b _ := by
    unfold difference
    omega
  trans a _ b _ c _ hab hbc := by
    unfold difference at *
    omega

def twoNodes : Nodes Nat
  | 1 => ⟨some 3, none⟩
  | 3 => ⟨none, some 1⟩
  | _ => ⟨none, none⟩

theorem twoNodes_represents : Represents ⟨some 1, some 3, 2⟩ twoNodes [1, 3] :=
  ⟨⟨rfl, 1, rfl, rfl, 3, rfl, rfl⟩, ⟨rfl, 3, rfl, rfl, 1, rfl, rfl⟩⟩

/-- Two nodes that are in order, and compare as `-2`, are put out of order. -/
theorem difference_not_inOrder :
    Represents ⟨some 1, some 3, 2⟩ twoNodes [1, 3] ∧ Preordered difference [1, 3] ∧
      InOrder difference ⟨⟨some 1, some 3, 2⟩, twoNodes, ()⟩ ∧
      ∀ w', mergesort (2 ^ 64) (ofFunction difference) 3 ⟨⟨some 1, some 3, 2⟩, twoNodes, ()⟩ =
        .ok w' → ¬ InOrder difference w' := by
  refine ⟨twoNodes_represents, difference_preordered _, ?_, ?_⟩
  · apply (inOrder_iff (difference_preordered _) twoNodes_represents.forward).mpr
    simp [Ascending, Below, difference]
  · rintro w' hok ⟨ys, hpath, hall⟩
    cases hok
    have hys : ys = [3, 1] := Chain.unique hpath ⟨rfl, 3, rfl, rfl, 1, rfl, rfl⟩
    rw [hys] at hall
    exact absurd (hall 3 (by decide) 1 rfl) (by decide)

end Floppix.Lists
