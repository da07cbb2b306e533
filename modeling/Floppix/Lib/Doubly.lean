import Floppix.Lib.Chain
import Mathlib.Data.List.Induction
import Mathlib.Logic.Function.Basic

/-! # Doubly linked lists

Two functions give the node behind each node and the one in front of it. A sequence is
linked between a head and a tail when the first function runs through it from the head, and
the second runs through its reverse from the tail. Whatever is shown of one direction holds
of the other with the sequence reversed.
-/

namespace LinkedList

variable {α : Type*} {next next' prev prev' : α → Option α} {ptr head tail : Option α}
  {us vs xs ys : List α} {a b n r : α}

/-! ## One direction -/

/-- The function runs through the nodes in this order, from the pointer on. -/
abbrev Path (next : α → Option α) : Option α → List α → Prop := Chain some next

theorem path_cons_iff : Path next ptr (a :: xs) ↔ ptr = some a ∧ Path next (next a) xs := by
  simp [Path, Chain]

theorem Path.cons (h : Path next (next a) xs) : Path next (some a) (a :: xs) :=
  path_cons_iff.mpr ⟨rfl, h⟩

theorem Path.congr (h : Path next ptr xs) (hsame : ∀ x ∈ xs, next' x = next x) :
    Path next' ptr xs := by
  induction xs generalizing ptr with
  | nil => exact h
  | cons x xs ih =>
      obtain ⟨rfl, hrest⟩ := path_cons_iff.mp h
      rw [← hsame x (List.mem_cons_self ..)] at hrest
      exact (ih hrest fun y hy => hsame y (List.mem_cons_of_mem x hy)).cons

/-- What comes behind a node. -/
theorem Path.behind (h : Path next ptr (us ++ a :: vs)) : Path next (next a) vs :=
  (path_cons_iff.mp (Chain.suffix h)).2

theorem Path.next_eq (h : Path next ptr (us ++ a :: vs)) : next a = vs.head? :=
  Chain.head_eq h.behind

theorem Path.relink (h : Path next ptr (us ++ a :: xs)) (hsame : ∀ x ∈ us, next' x = next x)
    (hys : Path next' (next' a) ys) : Path next' ptr (us ++ a :: ys) := by
  induction us generalizing ptr with
  | nil =>
      obtain ⟨rfl, -⟩ := path_cons_iff.mp h
      exact hys.cons
  | cons u us ih =>
      obtain ⟨rfl, hrest⟩ := path_cons_iff.mp h
      rw [← hsame u (List.mem_cons_self ..)] at hrest
      exact (ih hrest fun x hx => hsame x (List.mem_cons_of_mem u hx)).cons

theorem Path.nodup (h : Path next ptr xs) : xs.Nodup := by
  induction xs generalizing ptr with
  | nil => exact List.nodup_nil
  | cons x xs ih =>
      obtain ⟨rfl, hrest⟩ := path_cons_iff.mp h
      refine List.nodup_cons.mpr ⟨fun hmem => ?_, ih hrest⟩
      obtain ⟨us, vs, rfl⟩ := List.append_of_mem hmem
      -- the same pointer would lead through two lists
      rw [← List.cons_append] at h
      exact Chain.ne_some h (List.cons_ne_nil x us) rfl

/-- A relation that is transitive on a path holds along it when it holds of neighbours. -/
theorem Path.pairwise_iff {R : α → α → Prop} (h : Path next ptr xs)
    (htrans : ∀ a ∈ xs, ∀ b ∈ xs, ∀ c ∈ xs, R a b → R b c → R a c) :
    xs.Pairwise R ↔ ∀ a ∈ xs, ∀ b, next a = some b → R a b := by
  induction xs generalizing ptr with
  | nil => simp
  | cons x xs ih =>
      obtain ⟨-, hrest⟩ := path_cons_iff.mp h
      have hmem : ∀ {y}, y ∈ xs → y ∈ x :: xs := fun hy => List.mem_cons_of_mem x hy
      have ih := ih hrest fun a ha b hb c hc => htrans a (hmem ha) b (hmem hb) c (hmem hc)
      have hhead : next x = xs.head? := Chain.head_eq hrest
      rw [List.pairwise_cons, ih]
      constructor
      · rintro ⟨hx, hxs⟩ a ha b hab
        obtain rfl | ha := List.mem_cons.mp ha
        · exact hx b (List.mem_of_head? (hhead ▸ hab))
        · exact hxs a ha b hab
      · intro hall
        have hxs := fun a ha => hall a (hmem ha)
        refine ⟨fun y hy => ?_, hxs⟩
        cases xs with
        | nil => exact absurd hy List.not_mem_nil
        | cons z zs =>
            have hxz := hall x (List.mem_cons_self ..) z hhead
            obtain rfl | hyz := List.mem_cons.mp hy
            · exact hxz
            · have hzy := (List.pairwise_cons.mp (ih.mpr hxs)).1 y hyz
              exact htrans x (List.mem_cons_self ..) z (hmem (List.mem_cons_self ..)) y (hmem hy)
                hxz hzy

/-! ## Both directions -/

structure Linked (next prev : α → Option α) (head tail : Option α) (xs : List α) : Prop where
  forward : Path next head xs
  backward : Path prev tail xs.reverse

theorem linked_nil (next prev : α → Option α) : Linked next prev none none [] := ⟨rfl, rfl⟩

theorem Linked.flip (h : Linked next prev head tail xs) :
    Linked prev next tail head xs.reverse := by
  refine ⟨h.backward, ?_⟩
  rw [List.reverse_reverse]
  exact h.forward

theorem Linked.nodup (h : Linked next prev head tail xs) : xs.Nodup := h.forward.nodup

theorem Linked.head_eq (h : Linked next prev head tail xs) : head = xs.head? :=
  Chain.head_eq h.forward

theorem Linked.tail_eq (h : Linked next prev head tail xs) : tail = xs.getLast? := by
  rw [← List.head?_reverse]
  exact h.flip.head_eq

theorem Linked.next_eq (h : Linked next prev head tail (us ++ a :: vs)) : next a = vs.head? :=
  h.forward.next_eq

theorem Linked.prev_eq (h : Linked next prev head tail (us ++ a :: vs)) :
    prev a = us.getLast? := by
  have hflip := h.flip
  rw [List.reverse_append, List.reverse_cons, List.append_assoc, List.singleton_append] at hflip
  rw [← List.head?_reverse]
  exact hflip.next_eq

/-- The node behind another one leads back to it. -/
theorem Linked.prev_of_next (h : Linked next prev head tail xs) (ha : a ∈ xs)
    (hab : next a = some b) : prev b = some a := by
  obtain ⟨us, vs, rfl⟩ := List.append_of_mem ha
  cases vs with
  | nil =>
      rw [h.next_eq] at hab
      cases hab
  | cons c vs =>
      rw [h.next_eq] at hab
      cases hab
      rw [List.append_cons] at h
      rw [h.prev_eq, List.getLast?_concat]

theorem Linked.prev_head (h : Linked next prev head tail xs) (ha : head = some a) :
    prev a = none := by
  cases xs with
  | nil =>
      rw [h.head_eq] at ha
      cases ha
  | cons b xs =>
      rw [h.head_eq] at ha
      cases ha
      rw [← List.nil_append (a :: xs)] at h
      exact h.prev_eq

theorem linked_singleton (hnext : next n = none) (hprev : prev n = none) :
    Linked next prev (some n) (some n) [n] :=
  ⟨path_cons_iff.mpr ⟨rfl, hnext⟩, path_cons_iff.mpr ⟨rfl, hprev⟩⟩

section Changes

variable [DecidableEq α]

/-! ## Inserting -/

theorem Path.insert_front (h : Path next ptr xs) (hn : n ∉ xs) :
    Path (Function.update next n ptr) (some n) (n :: xs) := by
  apply Path.cons
  rw [Function.update_self]
  refine h.congr fun x hx => Function.update_of_ne ?_ _ _
  rintro rfl
  exact hn hx

theorem Path.insert (h : Path next ptr (us ++ a :: vs)) (hn : n ∉ us ++ a :: vs) :
    Path (Function.update (Function.update next n (next a)) a (some n)) ptr
      (us ++ a :: n :: vs) := by
  obtain ⟨-, hcons, hdisjoint⟩ := List.nodup_append.mp h.nodup
  have hna : n ≠ a := fun heq => hn (by simp [heq])
  refine h.relink (fun x hx => ?_) ?_
  · have hxa := hdisjoint x hx a (List.mem_cons_self ..)
    have hxn : x ≠ n := fun heq => hn (by simp [← heq, hx])
    rw [Function.update_of_ne hxa, Function.update_of_ne hxn]
  · rw [Function.update_self]
    apply Path.cons
    rw [Function.update_of_ne hna, Function.update_self]
    apply h.behind.congr
    intro x hx
    have hxa : x ≠ a := fun heq => (List.nodup_cons.mp hcons).1 (heq ▸ hx)
    have hxn : x ≠ n := fun heq => hn (by simp [← heq, hx])
    rw [Function.update_of_ne hxa, Function.update_of_ne hxn]

/-- A node behind another one. -/
theorem Linked.insert_after (h : Linked next prev head tail (us ++ a :: vs))
    (hn : n ∉ us ++ a :: vs) :
    Linked (Function.update (Function.update next n (next a)) a (some n))
      ((next a).elim (Function.update prev n (some a)) fun b =>
        Function.update (Function.update prev n (some a)) b (some n))
      head ((next a).elim (some n) fun _ => tail) (us ++ a :: n :: vs) := by
  refine ⟨h.forward.insert hn, ?_⟩
  have hback := h.backward
  have hn' : n ∉ (us ++ a :: vs).reverse := mt List.mem_reverse.mp hn
  rw [h.next_eq]
  cases vs with
  | nil =>
      rw [h.tail_eq, List.getLast?_concat] at hback
      simpa using hback.insert_front hn'
  | cons b vs =>
      have hprev : prev b = some a := by
        have hsplit : us ++ a :: b :: vs = (us ++ [a]) ++ b :: vs := by simp
        rw [hsplit] at h
        rw [h.prev_eq, List.getLast?_concat]
      have hreverse : (us ++ a :: b :: vs).reverse = vs.reverse ++ b :: a :: us.reverse := by simp
      rw [hreverse] at hback hn'
      have hinsert := hback.insert hn'
      rw [hprev] at hinsert
      simpa using hinsert

/-- A node in front of another one. -/
theorem Linked.insert_before (h : Linked next prev head tail (us ++ b :: vs))
    (hn : n ∉ us ++ b :: vs) :
    Linked ((prev b).elim (Function.update next n (some b)) fun a =>
        Function.update (Function.update next n (some b)) a (some n))
      (Function.update (Function.update prev n (prev b)) b (some n))
      ((prev b).elim (some n) fun _ => head) tail (us ++ n :: b :: vs) := by
  have hflip := h.flip
  rw [List.reverse_append, List.reverse_cons, List.append_assoc, List.singleton_append] at hflip
  have hreverse : vs.reverse ++ b :: us.reverse = (us ++ b :: vs).reverse := by simp
  have hn' : n ∉ vs.reverse ++ b :: us.reverse := by
    rw [hreverse, List.mem_reverse]
    exact hn
  have hafter := (hflip.insert_after hn').flip
  simpa using hafter

/-! ## Removing -/

theorem Path.unlink (h : Linked next prev head tail (us ++ r :: vs)) :
    Path ((prev r).elim next fun a => Function.update next a (next r))
      (if head = some r then next r else head) (us ++ vs) := by
  have hforward := h.forward
  rw [h.prev_eq]
  cases us using List.reverseRecOn with
  | nil =>
      have hhead : head = some r := h.head_eq
      rw [if_pos hhead]
      exact hforward.behind
  | append_singleton us a =>
      rw [List.getLast?_concat, Option.elim_some,
        if_neg (Chain.ne_some hforward (List.concat_ne_nil a us))]
      have hnodup := h.nodup
      rw [List.append_assoc, List.singleton_append] at hforward hnodup ⊢
      obtain ⟨-, hcons, hdisjoint⟩ := List.nodup_append.mp hnodup
      refine hforward.relink (fun x hx => ?_) ?_
      · exact Function.update_of_ne (hdisjoint x hx a (List.mem_cons_self ..)) _ _
      · rw [Function.update_self]
        have hrest : Path next (next r) vs := h.forward.behind
        refine hrest.congr fun x hx => Function.update_of_ne ?_ _ _
        rintro rfl
        exact (List.nodup_cons.mp hcons).1 (List.mem_cons_of_mem r hx)

/-- A node leaves the sequence. -/
theorem Linked.unlink (h : Linked next prev head tail (us ++ r :: vs)) :
    Linked ((prev r).elim next fun a => Function.update next a (next r))
      ((next r).elim prev fun b => Function.update prev b (prev r))
      (if head = some r then next r else head) (if tail = some r then prev r else tail)
      (us ++ vs) := by
  refine ⟨Path.unlink h, ?_⟩
  have hflip := h.flip
  rw [List.reverse_append, List.reverse_cons, List.append_assoc, List.singleton_append] at hflip
  rw [List.reverse_append]
  exact Path.unlink hflip

end Changes

end LinkedList
