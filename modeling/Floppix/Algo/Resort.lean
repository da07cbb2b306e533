import Floppix.Algo.Order

/-! # Sorting again

The reset in `fpx_list_mergesort_merge` does not reach the size, and every node that is pushed
back is counted once more. A list of two or more nodes comes out of the sort with twice its
size, and the next sort looks for its second half behind its last node.
-/

namespace Floppix.Lists

open LinkedList Merging Outcome

variable {σ α : Type} [DecidableEq α]

def resort (sizeMax : Nat) (compar : Compare σ α) (rounds : Nat) : Nat → Sorting σ α →
    Except Stuck (Sorting σ α)
  | 0, w => .ok w
  | times + 1, w => do
      let w ← mergesort sizeMax compar rounds w
      resort sizeMax compar rounds times w

/-- The list has the size of its nodes `ys`, and however often it is sorted again, nodes that
compare differently stay in the order they are in. -/
structure Reusable (sizeMax : Nat) (compar : α → α → Int) (rounds : Nat) (w : Sorting Unit α)
    (ys : List α) : Prop where
  size : w.list.size = ys.length
  again : ∀ times, Yields False (resort sizeMax (ofFunction compar) rounds times w) fun w' =>
    ∃ zs, Path (nextOf w'.nodes) w'.list.head zs ∧
      ∀ a ∈ ys, ∀ b ∈ ys, compar a b ≠ 0 → ([a, b].Sublist zs ↔ [a, b].Sublist ys)

/-- The function answers `-1`, `0` or `1` according to a total preorder of the nodes. -/
structure ThreeWay (compar : α → α → Int) (xs : List α) : Prop where
  preordered : Preordered compar xs
  answers : ∀ a ∈ xs, ∀ b ∈ xs, compar a b = -1 ∨ compar a b = 0 ∨ compar a b = 1

variable {sizeMax rounds : Nat} {compar : Compare σ α} {w w' : Sorting σ α} {xs ys : List α}

/-! ## The size -/

theorem increment_iterate (sizeMax size times : Nat) :
    (increment sizeMax)^[times + 1] size = (size + (times + 1)) % sizeMax := by
  induction times with
  | zero => rfl
  | succ times ih =>
      rw [Function.iterate_succ_apply', ih, increment, Nat.mod_add_mod, Nat.add_assoc]

omit [DecidableEq α] in
/-- The nodes that are pushed are counted on top of those that were counted already. -/
theorem Sorted.size_eq (h : Sorted sizeMax w w' xs ys) (hmany : 2 ≤ xs.length) :
    w'.list.size = 2 * xs.length % sizeMax := by
  rw [(h.many hmany).2, Nat.two_mul]
  obtain ⟨times, htimes⟩ := Nat.exists_eq_add_of_le' (Nat.le_of_succ_le hmany)
  rw [htimes]
  exact increment_iterate ..

theorem double_mod_ne {n : Nat} (hn : 0 < n) : 2 * n % sizeMax ≠ n := by
  intro heq
  obtain rfl | hpos := Nat.eq_zero_or_pos sizeMax
  · rw [Nat.mod_zero] at heq
    omega
  · have hlt : n < sizeMax := heq ▸ Nat.mod_lt _ hpos
    have hdiv := Nat.div_add_mod (2 * n) sizeMax
    rw [heq] at hdiv
    have hzero : 2 * n / sizeMax = 0 := by
      by_contra hne
      have hle := Nat.le_mul_of_pos_right sizeMax (Nat.pos_of_ne_zero hne)
      omega
    rw [hzero] at hdiv
    omega

/-! ## The next sort -/

theorem mergesort_null (hhead : w.list.head = none) (hmany : 2 ≤ w.list.size) :
    mergesort sizeMax compar (rounds + 1) w = .error .nullPointer := by
  rw [mergesort, if_neg (Nat.not_lt.mpr hmany), hhead]
  dsimp only
  cases w.list.size / 2 - 1 with
  | zero => rfl
  | succ steps => rfl

/-- A list that counts its nodes twice has no second half. -/
theorem mergesort_doubled (h : Represents w.list w.nodes ys) (hmany : 2 ≤ ys.length)
    (hsize : w.list.size = 2 * ys.length) (hrounds : ys.length + 1 < rounds) :
    mergesort sizeMax compar rounds w = .error .nullPointer := by
  obtain ⟨rounds, rfl⟩ := Nat.exists_eq_add_of_le' (Nat.one_le_of_lt hrounds)
  have hne : ys ≠ [] := List.ne_nil_of_length_pos (Nat.zero_lt_of_lt hmany)
  have hlast := List.dropLast_append_getLast hne
  have hpath := h.forward
  rw [← hlast] at hpath
  have hus : ys.dropLast.length = w.list.size / 2 - 1 := by
    rw [List.length_dropLast]
    omega
  rw [mergesort_halves hpath (by omega) hus]
  obtain ⟨hfirst, hsecond⟩ := path_cut hpath
  rw [hlast] at hfirst
  have hhalf : w.list.size / 2 = ys.length := by omega
  have hsorts : Yields False (mergesort sizeMax compar rounds
      ⟨⟨w.list.head, some (ys.getLast hne), w.list.size / 2⟩,
        setNext w.nodes (ys.getLast hne) none, w.state⟩) _ :=
    mergesort_sorts sizeMax compar hfirst hhalf (Nat.lt_of_succ_lt_succ hrounds)
  obtain ⟨w₁, hok, -⟩ := hsorts.exists_ok not_false
  rw [hok]
  obtain ⟨rounds, rfl⟩ := Nat.exists_eq_add_of_le' (show 1 ≤ rounds by omega)
  have hnull : mergesort sizeMax compar (rounds + 1)
      ⟨⟨nextOf w.nodes (ys.getLast hne), w.list.tail, w.list.size - w.list.size / 2⟩, w₁.nodes,
        w₁.state⟩ = .error .nullPointer := by
    apply mergesort_null
    · exact Chain.head_eq hpath.behind
    · show 2 ≤ w.list.size - w.list.size / 2
      omega
  calc _ = (mergesort sizeMax compar (rounds + 1) _ >>= _) := rfl
    _ = .error .nullPointer := by rw [hnull]; rfl

/-! ## Sorting again -/

/-- The sort after the first one follows a `NULL` pointer. -/
theorem mergesort_twice (h : Represents w.list w.nodes xs) (hsize : w.list.size = xs.length)
    (hmany : 2 ≤ xs.length) (hfits : 2 * xs.length < sizeMax) (hrounds : xs.length + 1 < rounds) :
    resort sizeMax compar rounds 2 w = .error .nullPointer := by
  obtain ⟨w', hok, ys, hsorts, hsorted⟩ :=
    (mergesort_sorts sizeMax compar h.forward hsize (Nat.lt_of_succ_lt hrounds)).exists_ok not_false
  have hlength := hsorts.perm.length_eq
  have hcount := hsorted.size_eq hmany
  rw [Nat.mod_eq_of_lt hfits, ← hlength] at hcount
  have hnext : mergesort sizeMax compar rounds w' = .error .nullPointer :=
    mergesort_doubled (hsorted.many hmany).1 (hlength ▸ hmany) hcount (hlength ▸ hrounds)
  rw [resort, hok]
  show (mergesort sizeMax compar rounds w' >>= _) = _
  rw [hnext]
  rfl

/-- A list of fewer than two nodes stays as it is. -/
theorem resort_few (hfew : w.list.size < 2) (hrounds : 0 < rounds) (times : Nat) :
    resort sizeMax compar rounds times w = .ok w := by
  obtain ⟨rounds, rfl⟩ := Nat.exists_eq_add_of_le' hrounds
  induction times with
  | zero => rfl
  | succ times ih =>
      have hok : mergesort sizeMax compar (rounds + 1) w = .ok w := by rw [mergesort, if_pos hfew]
      rw [resort, hok]
      exact ih

/-- After a sort by a function that answers `-1`, `0` and `1` the list has the size of its nodes
and can be sorted again any number of times, exactly if it has fewer than two nodes. -/
theorem mergesort_reusable_iff (sizeMax : Nat) (compar : α → α → Int) (w : Sorting Unit α)
    (xs : List α) (h : Represents w.list w.nodes xs) (hsize : w.list.size = xs.length)
    (rounds : Nat) (hrounds : xs.length < rounds) :
    (∃ w' ys, mergesort sizeMax (ofFunction compar) rounds w = .ok w' ∧
        Path (nextOf w'.nodes) w'.list.head ys ∧ Reusable sizeMax compar rounds w' ys) ↔
      xs.length < 2 := by
  obtain ⟨w', hok, ys, hsorts, hsorted⟩ :=
    (mergesort_sorts sizeMax (ofFunction compar) h.forward hsize hrounds).exists_ok not_false
  constructor
  · rintro ⟨w'', zs, hok', hpath, hreuse⟩
    by_contra hmany
    rw [hok] at hok'
    cases hok'
    have hcount := hreuse.size
    rw [Chain.unique hpath hsorted.path, hsorts.perm.length_eq,
      hsorted.size_eq (Nat.not_lt.mp hmany)] at hcount
    exact double_mod_ne (by omega) hcount
  · intro hfew
    obtain rfl := hsorted.few hfew
    refine ⟨w', xs, hok, h.forward, hsize, fun times => ?_⟩
    rw [resort_few (hsize ▸ hfew) (Nat.zero_lt_of_lt hrounds)]
    exact ⟨xs, h.forward, fun _ _ _ _ _ => Iff.rfl⟩

theorem threeWay_three (xs : List Nat) : ThreeWay threeWay xs where
  preordered := threeWay_preordered xs
  answers a _ b _ := by
    unfold threeWay
    split
    · exact Or.inl rfl
    · split <;> simp

/-- Two nodes are sorted. The size is `4`, and the next sort follows a `NULL` pointer. -/
theorem twoNodes_not_reusable :
    Represents ⟨some 1, some 3, 2⟩ twoNodes [1, 3] ∧ ThreeWay threeWay [1, 3] ∧
      ∃ w', mergesort (2 ^ 64) (ofFunction threeWay) 4 ⟨⟨some 1, some 3, 2⟩, twoNodes, ()⟩ =
          .ok w' ∧ w'.list.size = 4 ∧
        mergesort (2 ^ 64) (ofFunction threeWay) 4 w' = .error .nullPointer :=
  ⟨twoNodes_represents, threeWay_three _, _, rfl, rfl, rfl⟩

/-- A list of one node can be sorted again. -/
theorem oneNode_reusable :
    ∃ w' ys, mergesort (2 ^ 64) (ofFunction threeWay) 2
        ⟨⟨some 5, some 5, 1⟩, twoNodes, ()⟩ = .ok w' ∧
      Path (nextOf w'.nodes) w'.list.head ys ∧ Reusable (2 ^ 64) threeWay 2 w' ys :=
  (mergesort_reusable_iff (2 ^ 64) threeWay ⟨⟨some 5, some 5, 1⟩, twoNodes, ()⟩ [5]
    (linked_singleton rfl rfl) rfl 2 (by decide)).mpr (by decide)

end Floppix.Lists
