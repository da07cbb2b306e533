import Floppix.Algo.Sequence
import Floppix.Lib.Merging
import Floppix.Lib.Outcome
import Mathlib.Algebra.Order.Group.Nat
import Mathlib.Logic.Function.Iterate

/-! # Sorting lists

`fpx_list_mergesort` cuts the chain behind the first half, sorts the two halves in headers of
its own and merges them back into the header it got. The `prev` link of the first node of the
second half is stale until the merge, which gives every node new links.
-/

namespace Floppix.Lists

open LinkedList Merging Outcome

inductive Stuck
  | nullPointer
  | outOfRounds
deriving DecidableEq, Repr

/-- A comparison function. It may read the nodes and keep a state of its own. -/
abbrev Compare (σ α : Type) := σ → Nodes α → α → α → Int × σ

structure Sorting (σ α : Type) where
  list : Header α
  nodes : Nodes α
  state : σ

variable {σ α : Type}

def follow (ptr : Option α) : Except Stuck α := ptr.elim (.error .nullPointer) .ok

/-- The loop of `fpx_list_mergesort` that looks for the end of the first half. -/
def walk (nodes : Nodes α) : Nat → Option α → Except Stuck (Option α)
  | 0, node => .ok node
  | steps + 1, node => do
      let a ← follow node
      walk nodes steps (nextOf nodes a)

section Functions

variable [DecidableEq α]

def Sorting.pushBack (sizeMax : Nat) (w : Sorting σ α) (node : α) : Sorting σ α :=
  { w with
    list := (Lists.pushBack sizeMax w.list w.nodes node).1
    nodes := (Lists.pushBack sizeMax w.list w.nodes node).2 }

/-! ## The functions -/

def mergeHeads (sizeMax : Nat) (compar : Compare σ α) : Nat → Sorting σ α → Option α → Option α →
    Except Stuck (Sorting σ α × Option α × Option α)
  | _, w, none, right => .ok (w, none, right)
  | _, w, some left, none => .ok (w, some left, none)
  | 0, _, some _, some _ => .error .outOfRounds
  | rounds + 1, w, some left, some right =>
      let (order, state) := compar w.state w.nodes left right
      let w := { w with state }
      if order = -1 then
        mergeHeads sizeMax compar rounds (w.pushBack sizeMax left) (nextOf w.nodes left)
          (some right)
      else
        mergeHeads sizeMax compar rounds (w.pushBack sizeMax right) (some left)
          (nextOf w.nodes right)

def mergeRest (sizeMax : Nat) : Nat → Sorting σ α → Option α → Except Stuck (Sorting σ α)
  | _, w, none => .ok w
  | 0, _, some _ => .error .outOfRounds
  | rounds + 1, w, some node =>
      mergeRest sizeMax rounds (w.pushBack sizeMax node) (nextOf w.nodes node)

/-- `fpx_list_mergesort_merge`. The reset has the size of a node, which is that of the two
pointers at the start of the list. -/
def merge (sizeMax : Nat) (compar : Compare σ α) (rounds : Nat) (w : Sorting σ α)
    (left right : Option α) : Except Stuck (Sorting σ α) := do
  let w := { w with list := { w.list with head := none, tail := none } }
  let (w, left, right) ← mergeHeads sizeMax compar rounds w left right
  let w ← mergeRest sizeMax rounds w left
  mergeRest sizeMax rounds w right

/-- `fpx_list_mergesort`. The number of rounds is for the loops and for the depth of the
recursion. -/
def mergesort (sizeMax : Nat) (compar : Compare σ α) : Nat → Sorting σ α →
    Except Stuck (Sorting σ α)
  | 0, _ => .error .outOfRounds
  | rounds + 1, w =>
      if w.list.size < 2 then .ok w
      else do
        let m := w.list.size / 2
        let node ← walk w.nodes (m - 1) w.list.head
        let middle ← follow node
        let list1 : Header α := ⟨w.list.head, node, m⟩
        let list2 : Header α := ⟨nextOf w.nodes middle, w.list.tail, w.list.size - m⟩
        let w1 ← mergesort sizeMax compar rounds ⟨list1, setNext w.nodes middle none, w.state⟩
        let w2 ← mergesort sizeMax compar rounds ⟨list2, w1.nodes, w1.state⟩
        merge sizeMax compar rounds ⟨w.list, w2.nodes, w2.state⟩ w1.list.head w2.list.head

end Functions

def TakesLeft (compar : Compare σ α) (a b : α) : Prop :=
  ∃ state nodes, (compar state nodes a b).1 = -1

def TakesRight (compar : Compare σ α) (a b : α) : Prop :=
  ∃ state nodes, (compar state nodes a b).1 ≠ -1

/-! ## Merging -/

/-- The links while two chains are merged: `out` is on the list, `l` and `r` are left. -/
structure Merged (sizeMax : Nat) (before : Sorting σ α) (w : Sorting σ α)
    (left right : Option α) (out l r : List α) : Prop where
  represents : Represents w.list w.nodes out
  left : Path (nextOf w.nodes) left l
  right : Path (nextOf w.nodes) right r
  nodup : (out ++ (l ++ r)).Nodup
  frame : ∀ x, x ∉ out ++ (l ++ r) → w.nodes x = before.nodes x
  size : w.list.size = (increment sizeMax)^[out.length] before.list.size

variable {sizeMax rounds : Nat} {compar : Compare σ α} {before w : Sorting σ α}
  {left right : Option α} {out l r xs ys us vs : List α} {a b x : α} {state : σ}

theorem Merged.swap (h : Merged sizeMax before w left right out l r) :
    Merged sizeMax before w right left out r l where
  represents := h.represents
  left := h.right
  right := h.left
  nodup := (List.perm_append_comm.append_left out).nodup_iff.mp h.nodup
  frame x hx := h.frame x (mt (List.perm_append_comm.append_left out).mem_iff.mp hx)
  size := h.size

theorem Merged.head_eq (h : Merged sizeMax before w (some a) right out l r) :
    ∃ l', l = a :: l' := by
  obtain ⟨c, l', rfl, -, -⟩ := Chain.uncons h.left
  exact ⟨l', rfl⟩

variable [DecidableEq α]

theorem Merged.push (h : Merged sizeMax before w (some a) right out (a :: l) r) :
    Merged sizeMax before (w.pushBack sizeMax a) (nextOf w.nodes a) right (out ++ [a]) l r := by
  have hnodup := h.nodup
  obtain ⟨-, hrest, hdisjoint⟩ := List.nodup_append.mp hnodup
  rw [List.cons_append] at hrest
  obtain ⟨ha, -⟩ := List.nodup_cons.mp hrest
  have haout : a ∉ out := fun hmem => hdisjoint a hmem a (List.mem_cons_self ..) rfl
  have hsame : ∀ x, x ∉ out ++ [a] → (w.pushBack sizeMax a).nodes x = w.nodes x := by
    intro x hx
    have hxa : x ≠ a := fun heq => hx (by simp [heq])
    have htail : w.list.tail ≠ some x := fun heq =>
      hx (List.mem_append_left [a] (List.mem_of_getLast? (h.represents.tail_eq ▸ heq)))
    exact pushBack_frame sizeMax hxa htail
  have hchain : ∀ {ptr zs}, Path (nextOf w.nodes) ptr zs → zs ⊆ l ++ r →
      Path (nextOf (w.pushBack sizeMax a).nodes) ptr zs := by
    intro ptr zs hpath hsub
    apply hpath.congr
    intro x hx
    have hxr := hsub hx
    have hnot : x ∉ out ++ [a] := by
      rw [List.mem_append, List.mem_singleton]
      rintro (hxout | rfl)
      · exact hdisjoint x hxout x (List.mem_cons_of_mem a hxr) rfl
      · exact ha hxr
    rw [nextOf, hsame x hnot, nextOf]
  have hsplit : out ++ (a :: l ++ r) = out ++ [a] ++ (l ++ r) := by simp
  exact
    { represents := pushBack_represents h.represents haout
      left := hchain (path_cons_iff.mp h.left).2 (List.subset_append_left l r)
      right := hchain h.right (List.subset_append_right l r)
      nodup := hsplit ▸ hnodup
      frame := fun x hx => by
        rw [hsame x fun hmem => hx (List.mem_append_left _ hmem)]
        exact h.frame x (hsplit ▸ hx)
      size := by
        rw [List.length_append, List.length_singleton, Function.iterate_succ_apply', ← h.size]
        exact pushBack_size }

theorem Merged.pushLeft (h : Merged sizeMax before w (some a) right out (a :: l) r) (state : σ) :
    Merged sizeMax before ({ w with state }.pushBack sizeMax a) (nextOf w.nodes a) right
      (out ++ [a]) l r :=
  have h' : Merged sizeMax before { w with state } (some a) right out (a :: l) r :=
    ⟨h.represents, h.left, h.right, h.nodup, h.frame, h.size⟩
  h'.push

theorem mergeHeads_left (h : (compar w.state w.nodes a b).1 = -1) :
    mergeHeads sizeMax compar (rounds + 1) w (some a) (some b) =
      mergeHeads sizeMax compar rounds
        ({ w with state := (compar w.state w.nodes a b).2 }.pushBack sizeMax a)
        (nextOf w.nodes a) (some b) := by
  simp [mergeHeads, h]

theorem mergeHeads_right (h : (compar w.state w.nodes a b).1 ≠ -1) :
    mergeHeads sizeMax compar (rounds + 1) w (some a) (some b) =
      mergeHeads sizeMax compar rounds
        ({ w with state := (compar w.state w.nodes a b).2 }.pushBack sizeMax b)
        (some a) (nextOf w.nodes b) := by
  simp [mergeHeads, h]

/-- The loop over both sides stops when one of them is empty. -/
theorem mergeHeads_merges (h : Merged sizeMax before w left right out l r)
    (hrounds : l.length + r.length ≤ rounds) :
    Yields False (mergeHeads sizeMax compar rounds w left right) fun (w', left', right') =>
      ∃ zs l' r', Merged sizeMax before w' left' right' (out ++ zs) l' r' ∧
        Merges (TakesLeft compar) (TakesRight compar) l r (zs ++ (l' ++ r')) := by
  induction rounds generalizing w left right out l r with
  | zero =>
      obtain rfl := List.length_eq_zero_iff.mp (show l.length = 0 by omega)
      obtain rfl := h.left
      unfold mergeHeads
      exact ⟨[], [], r, by rwa [List.append_nil], .leftEmpty r⟩
  | succ rounds ih =>
      cases left with
      | none =>
          obtain rfl := h.left.eq_nil
          unfold mergeHeads
          exact ⟨[], [], r, by rwa [List.append_nil], .leftEmpty r⟩
      | some a =>
          obtain ⟨l, rfl⟩ := h.head_eq
          cases right with
          | none =>
              obtain rfl := h.right.eq_nil
              unfold mergeHeads
              refine ⟨[], a :: l, [], by rwa [List.append_nil], ?_⟩
              rw [List.nil_append, List.append_nil]
              exact .rightEmpty _
          | some b =>
              obtain ⟨r, rfl⟩ := h.swap.head_eq
              simp only [List.length_cons] at hrounds
              by_cases horder : (compar w.state w.nodes a b).1 = -1
              · rw [mergeHeads_left horder]
                apply (ih (h.pushLeft _) (by simp only [List.length_cons]; omega)).mono
                rintro ⟨w', left', right'⟩ - ⟨zs, l', r', hmerged, hmerges⟩
                refine ⟨a :: zs, l', r', ?_, .left ⟨_, _, horder⟩ hmerges⟩
                rwa [List.append_assoc] at hmerged
              · rw [mergeHeads_right horder]
                refine (ih (h.swap.pushLeft _).swap
                  (by simp only [List.length_cons]; omega)).mono ?_
                rintro ⟨w', left', right'⟩ - ⟨zs, l', r', hmerged, hmerges⟩
                refine ⟨b :: zs, l', r', ?_, .right ⟨_, _, horder⟩ hmerges⟩
                rwa [List.append_assoc] at hmerged

theorem mergeRest_takes (h : Merged sizeMax before w left right out l r)
    (hrounds : l.length ≤ rounds) :
    Yields False (mergeRest sizeMax rounds w left) fun w' =>
      Merged sizeMax before w' none right (out ++ l) [] r := by
  induction l generalizing rounds w left out with
  | nil =>
      obtain rfl := h.left
      unfold mergeRest
      rwa [List.append_nil]
  | cons a l ih =>
      obtain ⟨rfl, -⟩ := path_cons_iff.mp h.left
      cases rounds with
      | zero => exact absurd hrounds (by simp)
      | succ rounds =>
          unfold mergeRest
          apply (ih h.push (Nat.le_of_succ_le_succ hrounds)).mono
          intro w' _ hmerged
          rwa [List.append_assoc] at hmerged

theorem merge_merges (w : Sorting σ α) (hleft : Path (nextOf w.nodes) left l)
    (hright : Path (nextOf w.nodes) right r) (hnodup : (l ++ r).Nodup)
    (hrounds : l.length + r.length ≤ rounds) :
    Yields False (merge sizeMax compar rounds w left right) fun w' =>
      ∃ ys, Merges (TakesLeft compar) (TakesRight compar) l r ys ∧
        Represents w'.list w'.nodes ys ∧ (∀ x, x ∉ l ++ r → w'.nodes x = w.nodes x) ∧
        w'.list.size = (increment sizeMax)^[(l ++ r).length] w.list.size := by
  have hstart : Merged sizeMax w { w with list := { w.list with head := none, tail := none } }
      left right [] l r :=
    { represents := linked_nil _ _
      left := hleft
      right := hright
      nodup := hnodup
      frame := fun _ _ => rfl
      size := rfl }
  unfold merge
  apply Yields.bind (mergeHeads_merges hstart hrounds)
  rintro ⟨w₁, left₁, right₁⟩ - ⟨zs, l', r', h₁, hmerges⟩
  have hperm := hmerges.perm
  have hlength := hperm.length_eq
  simp only [List.length_append] at hlength
  apply Yields.bind (mergeRest_takes h₁ (by omega))
  intro w₂ _ h₂
  apply (mergeRest_takes h₂.swap (by omega)).mono
  intro w₃ _ h₃
  have hout : [] ++ zs ++ l' ++ r' = zs ++ (l' ++ r') := by simp
  have hrepresents := h₃.represents
  have hframe := h₃.frame
  have hsize := h₃.size
  rw [hout] at hrepresents hframe hsize
  rw [hperm.length_eq] at hsize
  refine ⟨_, hmerges, hrepresents, fun x hx => hframe x ?_, hsize⟩
  rw [List.append_nil, List.append_nil]
  exact mt hperm.mem_iff.mp hx

/-! ## Sorting -/

omit [DecidableEq α] in
theorem walk_eq {nodes : Nodes α} {ptr : Option α}
    (h : Path (nextOf nodes) ptr (us ++ a :: vs)) : walk nodes us.length ptr = .ok (some a) := by
  induction us generalizing ptr with
  | nil =>
      obtain ⟨rfl, -⟩ := path_cons_iff.mp h
      rfl
  | cons u us ih =>
      obtain ⟨rfl, hrest⟩ := path_cons_iff.mp h
      exact ih hrest

omit [DecidableEq α] in
/-- The last node of the first half. -/
theorem exists_middle (h : 2 ≤ xs.length) :
    ∃ us a, xs.take (xs.length / 2) = us ++ [a] ∧ us.length = xs.length / 2 - 1 := by
  have hlength : (xs.take (xs.length / 2)).length = xs.length / 2 := by
    rw [List.length_take]
    omega
  have hne : xs.take (xs.length / 2) ≠ [] := by
    apply List.ne_nil_of_length_pos
    omega
  refine ⟨_, _, (List.dropLast_append_getLast hne).symm, ?_⟩
  rw [List.length_dropLast, hlength]

theorem path_cut {nodes : Nodes α} {ptr : Option α}
    (h : Path (nextOf nodes) ptr (us ++ a :: vs)) :
    Path (nextOf (setNext nodes a none)) ptr (us ++ [a]) ∧
      Path (nextOf (setNext nodes a none)) (nextOf nodes a) vs := by
  obtain ⟨-, hcons, hdisjoint⟩ := List.nodup_append.mp h.nodup
  rw [nextOf_setNext]
  constructor
  · refine h.relink (fun x hx => ?_) ?_
    · exact Function.update_of_ne (hdisjoint x hx a (List.mem_cons_self ..)) _ _
    · rw [Function.update_self]
      exact chain_nil
  · refine h.behind.congr fun x hx => Function.update_of_ne ?_ _ _
    rintro rfl
    exact (List.nodup_cons.mp hcons).1 hx

structure Sorted (sizeMax : Nat) (w w' : Sorting σ α) (xs ys : List α) : Prop where
  path : Path (nextOf w'.nodes) w'.list.head ys
  frame : ∀ x, x ∉ xs → w'.nodes x = w.nodes x
  few : xs.length < 2 → w' = w
  many : 2 ≤ xs.length → Represents w'.list w'.nodes ys ∧
    w'.list.size = (increment sizeMax)^[xs.length] xs.length

omit [DecidableEq α] in
theorem path_of_frame {nodes nodes' : Nodes α} {ptr : Option α} (h : Path (nextOf nodes) ptr ys)
    (hframe : ∀ x, x ∉ xs → nodes' x = nodes x) (hdisjoint : ∀ x ∈ ys, x ∉ xs) :
    Path (nextOf nodes') ptr ys := by
  apply h.congr
  intro x hx
  rw [nextOf, hframe x (hdisjoint x hx), nextOf]

theorem mergesort_halves (hpath : Path (nextOf w.nodes) w.list.head (us ++ a :: vs))
    (hmany : 2 ≤ w.list.size) (hus : us.length = w.list.size / 2 - 1) :
    mergesort sizeMax compar (rounds + 1) w = (do
      let w1 ← mergesort sizeMax compar rounds
        ⟨⟨w.list.head, some a, w.list.size / 2⟩, setNext w.nodes a none, w.state⟩
      let w2 ← mergesort sizeMax compar rounds
        ⟨⟨nextOf w.nodes a, w.list.tail, w.list.size - w.list.size / 2⟩, w1.nodes, w1.state⟩
      merge sizeMax compar rounds ⟨w.list, w2.nodes, w2.state⟩ w1.list.head w2.list.head) := by
  have hwalk := walk_eq hpath
  rw [hus] at hwalk
  rw [mergesort, if_neg (Nat.not_lt.mpr hmany)]
  simp only [hwalk]
  rfl

theorem mergesort_sorts (sizeMax : Nat) (compar : Compare σ α)
    (hpath : Path (nextOf w.nodes) w.list.head xs) (hsize : w.list.size = xs.length)
    (hrounds : xs.length < rounds) :
    Yields False (mergesort sizeMax compar rounds w) fun w' =>
      ∃ ys, Sorts (TakesLeft compar) (TakesRight compar) xs ys ∧ Sorted sizeMax w w' xs ys := by
  induction rounds generalizing w xs with
  | zero => exact absurd hrounds (Nat.not_lt_zero _)
  | succ rounds ih =>
      by_cases hfew : xs.length < 2
      · rw [mergesort, hsize, if_pos hfew]
        exact ⟨xs, .short hfew, hpath, fun _ _ => rfl, fun _ => rfl,
          fun hmany => absurd hfew (Nat.not_lt.mpr hmany)⟩
      · have hmany : 2 ≤ xs.length := Nat.not_lt.mp hfew
        obtain ⟨us, a, hleft, hus⟩ := exists_middle hmany
        have hxs : us ++ a :: xs.drop (xs.length / 2) = xs := by
          rw [List.append_cons, ← hleft, List.take_append_drop]
        have hnodup := hpath.nodup
        rw [← List.take_append_drop (xs.length / 2) xs] at hnodup
        obtain ⟨-, -, hdisjoint⟩ := List.nodup_append.mp hnodup
        rw [← hxs] at hpath
        obtain ⟨hfirst, hsecond⟩ := path_cut hpath
        rw [← hleft] at hfirst
        rw [mergesort_halves hpath (hsize ▸ hmany) (hsize ▸ hus), hsize]
        -- the first half is sorted and leaves the chain of the second one alone
        have hlength₁ : (xs.take (xs.length / 2)).length = xs.length / 2 := by
          rw [List.length_take]
          omega
        apply Yields.bind (ih hfirst hlength₁.symm (by omega))
        rintro w₁ - ⟨l, hl, hsorted₁⟩
        have hsecond := path_of_frame hsecond hsorted₁.frame
          fun x hx hmem => hdisjoint x hmem x hx rfl
        have hlength₂ : (xs.drop (xs.length / 2)).length = xs.length - xs.length / 2 :=
          List.length_drop ..
        apply Yields.bind (ih hsecond hlength₂.symm (by omega))
        rintro w₂ - ⟨r, hr, hsorted₂⟩
        have hleftpath := path_of_frame hsorted₁.path hsorted₂.frame
          fun x hx hmem => hdisjoint x (hl.perm.mem_iff.mp hx) x hmem rfl
        have hperm : (l ++ r).Perm xs := by
          have happend := hl.perm.append hr.perm
          rwa [List.take_append_drop] at happend
        have hlength := hperm.length_eq
        rw [List.length_append] at hlength
        have hdistinct : (l ++ r).Nodup := by
          rw [List.take_append_drop] at hnodup
          exact hperm.nodup_iff.mpr hnodup
        refine (merge_merges ⟨w.list, w₂.nodes, w₂.state⟩ hleftpath hsorted₂.path hdistinct
          (by omega)).mono ?_
        rintro w' - ⟨ys, hm, hrepresents, hframe, hcount⟩
        rw [hperm.length_eq, hsize] at hcount
        refine ⟨ys, .halves hmany hl hr hm, hrepresents.forward, fun x hx => ?_,
          fun hlt => absurd hlt hfew, fun _ => ⟨hrepresents, hcount⟩⟩
        have hnot : x ∉ xs.take (xs.length / 2) ∧ x ∉ xs.drop (xs.length / 2) :=
          ⟨fun hmem => hx (List.mem_of_mem_take hmem), fun hmem => hx (List.mem_of_mem_drop hmem)⟩
        have hxa : x ≠ a := fun heq => hnot.1 (by rw [hleft, heq]; simp)
        calc w'.nodes x = w₂.nodes x := hframe x (mt hperm.mem_iff.mp hx)
          _ = w₁.nodes x := hsorted₂.frame x hnot.2
          _ = setNext w.nodes a none x := hsorted₁.frame x hnot.1
          _ = w.nodes x := Function.update_of_ne hxa _ _

/-! ## The links -/

structure Rebuilt (w : Sorting σ α) (ys : List α) : Prop where
  /-- following `next` from the head -/
  forward : Path (nextOf w.nodes) w.list.head ys
  tail : w.list.tail = ys.getLast?
  inverse : ∀ a ∈ ys, ∀ b ∈ ys, nextOf w.nodes a = some b ↔ prevOf w.nodes b = some a
  headPrev : ∀ a, w.list.head = some a → prevOf w.nodes a = none
  tailNext : ∀ a, w.list.tail = some a → nextOf w.nodes a = none

omit [DecidableEq α] in
theorem rebuilt_of_represents (h : Represents w.list w.nodes ys) : Rebuilt w ys where
  forward := h.forward
  tail := h.tail_eq
  inverse _ ha _ hb :=
    ⟨h.prev_of_next ha, Linked.prev_of_next h.flip (List.mem_reverse.mpr hb)⟩
  headPrev _ ha := h.prev_head ha
  tailNext _ ha := Linked.prev_head h.flip ha

omit [DecidableEq α] in
theorem Sorted.represents {w' : Sorting σ α} (h : Sorted sizeMax w w' xs ys)
    (hxs : Represents w.list w.nodes xs) :
    Represents w'.list w'.nodes ys := by
  by_cases hfew : xs.length < 2
  · obtain rfl := h.few hfew
    rwa [Chain.unique h.path hxs.forward]
  · exact (h.many (Nat.not_lt.mp hfew)).1

/-- Sorting loses no node and rebuilds the links, whatever the comparison function answers. -/
theorem mergesort_rebuilds (sizeMax : Nat) (compar : Compare σ α) (w : Sorting σ α) (xs : List α)
    (h : Represents w.list w.nodes xs) (hsize : w.list.size = xs.length) (rounds : Nat)
    (hrounds : xs.length < rounds) :
    ∃ w', mergesort sizeMax compar rounds w = .ok w' ∧ ∃ ys, ys.Perm xs ∧ Rebuilt w' ys := by
  obtain ⟨w', hok, ys, hsorts, hsorted⟩ :=
    (mergesort_sorts sizeMax compar h.forward hsize hrounds).exists_ok not_false
  exact ⟨w', hok, ys, hsorts.perm, rebuilt_of_represents (hsorted.represents h)⟩

def threeNodes : Nodes Nat
  | 1 => ⟨some 2, none⟩
  | 2 => ⟨some 3, some 1⟩
  | 3 => ⟨none, some 2⟩
  | _ => ⟨none, none⟩

theorem threeNodes_represents : Represents ⟨some 1, some 3, 3⟩ threeNodes [1, 2, 3] :=
  ⟨⟨rfl, 1, rfl, rfl, 2, rfl, rfl, 3, rfl, rfl⟩, ⟨rfl, 3, rfl, rfl, 2, rfl, rfl, 1, rfl, rfl⟩⟩

/-- A comparison function that contradicts itself at every other call. -/
def fickle : Compare Bool Nat := fun state _ _ _ => (if state then -1 else 1, !state)

/-- Three nodes are sorted by a function that is no order. -/
theorem mergesort_rebuilds_fickle :
    ∃ w', mergesort (2 ^ 64) fickle 4 ⟨⟨some 1, some 3, 3⟩, threeNodes, true⟩ = .ok w' ∧
      ∃ ys, ys.Perm [1, 2, 3] ∧ Rebuilt w' ys :=
  mergesort_rebuilds (2 ^ 64) fickle ⟨⟨some 1, some 3, 3⟩, threeNodes, true⟩ [1, 2, 3]
    threeNodes_represents rfl 4 (by decide)

end Floppix.Lists
