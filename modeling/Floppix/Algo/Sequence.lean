import Floppix.Algo.List

/-! # Lists as sequences

The links of a list implement a sequence of nodes: whatever is done to the list with nodes
that are not on it, and with nodes that are, its two directions run through the sequence
that the same operations make of the nodes.
-/

namespace Floppix.Lists

open LinkedList Transition

variable {α : Type}

/-- The links from the head run through the nodes in this order, and those from the tail
through them in the reverse order. -/
def Represents (list : Header α) (nodes : Nodes α) (xs : List α) : Prop :=
  Linked (nextOf nodes) (prevOf nodes) list.head list.tail xs

variable [DecidableEq α] {list : Header α} {nodes : Nodes α} {xs us vs : List α} {a b n r : α}
  {sizeMax rounds : Nat} {compar : α → Bool} {link : α → Option α} {ptr : Option α}

/-! ## Adding nodes -/

theorem pushBack_represents (h : Represents list nodes xs) (hn : n ∉ xs) :
    Represents (pushBack sizeMax list nodes n).1 (pushBack sizeMax list nodes n).2
      (xs ++ [n]) := by
  have htail := h.tail_eq
  unfold Represents pushBack
  cases xs using List.reverseRecOn with
  | nil =>
      rw [show list.tail = none from htail]
      exact linked_singleton (by simp) (by simp)
  | append_singleton us a =>
      rw [List.getLast?_concat] at htail
      have hafter := h.insert_after (n := n) hn
      rw [show nextOf nodes a = none from h.next_eq] at hafter
      rw [htail]
      simpa using hafter

theorem pushFront_represents (h : Represents list nodes xs) (hn : n ∉ xs) :
    Represents (pushFront sizeMax list nodes n).1 (pushFront sizeMax list nodes n).2
      (n :: xs) := by
  have hhead := h.head_eq
  unfold Represents pushFront
  cases xs with
  | nil =>
      rw [show list.head = none from hhead]
      exact linked_singleton (by simp) (by simp)
  | cons b vs =>
      have hfront : Linked (nextOf nodes) (prevOf nodes) list.head list.tail ([] ++ b :: vs) := h
      have hbefore := hfront.insert_before (n := n) hn
      rw [show prevOf nodes b = none from hfront.prev_eq] at hbefore
      rw [show list.head = some b from hhead]
      simpa using hbefore

theorem insertAfter_represents (h : Represents list nodes (us ++ a :: vs))
    (hn : n ∉ us ++ a :: vs) :
    Represents (insertAfter list nodes a n).1 (insertAfter list nodes a n).2
      (us ++ a :: n :: vs) := by
  have hafter := h.insert_after hn
  unfold Represents insertAfter
  cases hnext : nextOf nodes a with
  | none => simpa [hnext] using hafter
  | some b => simpa [hnext] using hafter

theorem insertBefore_represents (h : Represents list nodes (us ++ b :: vs))
    (hn : n ∉ us ++ b :: vs) :
    Represents (insertBefore list nodes b n).1 (insertBefore list nodes b n).2
      (us ++ n :: b :: vs) := by
  have hbefore := h.insert_before hn
  unfold Represents insertBefore
  cases hprev : prevOf nodes b with
  | none => simpa [hprev] using hbefore
  | some a => simpa [hprev] using hbefore

/-! ## Removing nodes -/

/-- A node that is not its own neighbour leaves its neighbours to each other. -/
theorem remove_links (hnext : nextOf nodes r ≠ some r) (hprev : prevOf nodes r ≠ some r) :
    nextOf (remove sizeMax list nodes r).2 = ((prevOf nodes r).elim (nextOf nodes) fun a =>
        Function.update (nextOf nodes) a (nextOf nodes r)) ∧
      prevOf (remove sizeMax list nodes r).2 = ((nextOf nodes r).elim (prevOf nodes) fun b =>
        Function.update (prevOf nodes) b (prevOf nodes r)) ∧
      (remove sizeMax list nodes r).1.head =
        (if list.head = some r then nextOf nodes r else list.head) ∧
      (remove sizeMax list nodes r).1.tail =
        (if list.tail = some r then prevOf nodes r else list.tail) := by
  have hnext' : ∀ b, nextOf nodes r = some b → r ≠ b := fun b hb heq =>
    hnext (hb.trans (congrArg some heq.symm))
  have hprev' : ∀ a, prevOf nodes r = some a → r ≠ a := fun a ha heq =>
    hprev (ha.trans (congrArg some heq.symm))
  cases hb : nextOf nodes r with
  | none =>
      cases ha : prevOf nodes r with
      | none =>
          by_cases hhead : list.head = some r <;> by_cases htail : list.tail = some r <;>
            simp [remove, hb, ha, hhead, htail]
      | some a =>
          by_cases hhead : list.head = some r <;> by_cases htail : list.tail = some r <;>
            simp [remove, hb, ha, hprev' a ha, hhead, htail]
  | some b =>
      cases ha : prevOf nodes r with
      | none =>
          by_cases hhead : list.head = some r <;> by_cases htail : list.tail = some r <;>
            simp [remove, hb, ha, hnext' b hb, hhead, htail]
      | some a =>
          by_cases hhead : list.head = some r <;> by_cases htail : list.tail = some r <;>
            simp [remove, hb, ha, hnext' b hb, hprev' a ha, hhead, htail]

theorem remove_represents (h : Represents list nodes (us ++ r :: vs)) :
    Represents (remove sizeMax list nodes r).1 (remove sizeMax list nodes r).2 (us ++ vs) := by
  obtain ⟨-, hcons, hdisjoint⟩ := List.nodup_append.mp h.nodup
  have hnext : nextOf nodes r ≠ some r := fun heq => by
    rw [h.next_eq] at heq
    exact (List.nodup_cons.mp hcons).1 (List.mem_of_head? heq)
  have hprev : prevOf nodes r ≠ some r := fun heq => by
    rw [h.prev_eq] at heq
    exact hdisjoint r (List.mem_of_getLast? heq) r (List.mem_cons_self ..) rfl
  have hunlink := h.unlink
  obtain ⟨hnexts, hprevs, hhead, htail⟩ := remove_links hnext hprev
  rw [← hnexts, ← hprevs, ← hhead, ← htail] at hunlink
  exact hunlink

theorem remove_erase (h : Represents list nodes xs) (hr : r ∈ xs) :
    Represents (remove sizeMax list nodes r).1 (remove sizeMax list nodes r).2 (xs.erase r) := by
  obtain ⟨us, vs, -, rfl, herase⟩ := List.exists_erase_eq hr
  rw [herase]
  exact remove_represents h

/-! ## Searching -/

omit [DecidableEq α] in
/-- With enough rounds the loop ends at the first node of the path that matches. -/
theorem search_eq (h : Path link ptr xs) (hrounds : xs.length ≤ rounds) :
    search link compar rounds ptr = some (xs.find? compar) := by
  induction xs generalizing ptr rounds with
  | nil =>
      cases h
      cases rounds <;> rfl
  | cons x xs ih =>
      obtain ⟨rfl, hrest⟩ := path_cons_iff.mp h
      obtain ⟨rounds, rfl⟩ : ∃ k, rounds = k + 1 := ⟨rounds - 1, by simp at hrounds; omega⟩
      rw [search, List.find?_cons]
      cases compar x with
      | true => rfl
      | false => exact ih hrest (by simpa using hrounds)

omit [DecidableEq α] in
/-- Wherever the loop ends, it is there. -/
theorem search_some (h : Path link ptr xs) {found : Option α}
    (hfound : search link compar rounds ptr = some found) : found = xs.find? compar := by
  induction xs generalizing ptr rounds with
  | nil =>
      cases h
      cases rounds <;> cases hfound <;> rfl
  | cons x xs ih =>
      obtain ⟨rfl, hrest⟩ := path_cons_iff.mp h
      cases rounds with
      | zero => cases hfound
      | succ rounds =>
          rw [search] at hfound
          rw [List.find?_cons]
          cases hx : compar x with
          | true =>
              rw [if_pos hx] at hfound
              cases hfound
              rfl
          | false =>
              rw [if_neg (by simp [hx])] at hfound
              exact ih hrest hfound

omit [DecidableEq α] in
theorem find_eq (h : Represents list nodes xs) (hrounds : xs.length ≤ rounds) :
    find rounds list nodes compar = some (xs.find? compar) :=
  search_eq h.forward hrounds

def RemovesMatch (list : Header α) (nodes : Nodes α) (xs : List α) (found : Option α)
    (out : Option (Err × Header α × Nodes α)) : Prop :=
  match found with
  | none => out = some (Err.failed, list, nodes)
  | some a => ∃ list' nodes', out = some (Err.ok, list', nodes') ∧
      Represents list' nodes' (xs.erase a)

theorem removeFound_matches (h : Represents list nodes xs) {found : Option α}
    (hfound : ∀ a, found = some a → a ∈ xs) :
    RemovesMatch list nodes xs found (some (removeFound sizeMax list nodes found)) := by
  cases found with
  | none => rfl
  | some a => exact ⟨_, _, rfl, remove_erase h (hfound a rfl)⟩

theorem removeFirst_matches (h : Represents list nodes xs) (hrounds : xs.length ≤ rounds) :
    RemovesMatch list nodes xs (xs.find? compar)
      (removeFirst sizeMax rounds list nodes compar) := by
  rw [removeFirst, search_eq h.forward hrounds]
  exact removeFound_matches h fun a ha => List.mem_of_find?_eq_some ha

theorem removeLast_matches (h : Represents list nodes xs) (hrounds : xs.length ≤ rounds) :
    RemovesMatch list nodes xs (xs.reverse.find? compar)
      (removeLast sizeMax rounds list nodes compar) := by
  rw [removeLast, search_eq h.backward (by simpa using hrounds)]
  exact removeFound_matches h fun a ha => List.mem_reverse.mp (List.mem_of_find?_eq_some ha)

/-! ## Runs -/

inductive Call (α : Type) where
  | pushFront (node : α)
  | pushBack (node : α)
  | insertBefore (beforeNode node : α)
  | insertAfter (afterNode node : α)
  | remove (node : α)
  | removeFirst (rounds : Nat) (compar : α → Bool)
  | removeLast (rounds : Nat) (compar : α → Bool)
  | clear

def Call.IsInsert : Call α → Prop
  | .insertBefore _ _ => True
  | .insertAfter _ _ => True
  | _ => False

structure World (α : Type) where
  list : Header α
  nodes : Nodes α
  /-- history: the sequence that the calls denote -/
  seq : List α

def World.start (nodes : Nodes α) : World α := ⟨listInit, nodes, []⟩

def beforeNode (b n : α) : List α → List α
  | [] => []
  | x :: xs => if x = b then n :: x :: xs else x :: beforeNode b n xs

def afterNode (a n : α) : List α → List α
  | [] => []
  | x :: xs => if x = a then x :: n :: xs else x :: afterNode a n xs

def without (xs : List α) : Option α → List α
  | none => xs
  | some a => xs.erase a

def step (sizeMax : Nat) (w : World α) : Call α → Option (World α)
  | .pushFront n =>
      if n ∈ w.seq then none
      else
        let (list, nodes) := pushFront sizeMax w.list w.nodes n
        some ⟨list, nodes, n :: w.seq⟩
  | .pushBack n =>
      if n ∈ w.seq then none
      else
        let (list, nodes) := pushBack sizeMax w.list w.nodes n
        some ⟨list, nodes, w.seq ++ [n]⟩
  | .insertBefore b n =>
      if b ∉ w.seq ∨ n ∈ w.seq then none
      else
        let (list, nodes) := insertBefore w.list w.nodes b n
        some ⟨list, nodes, beforeNode b n w.seq⟩
  | .insertAfter a n =>
      if a ∉ w.seq ∨ n ∈ w.seq then none
      else
        let (list, nodes) := insertAfter w.list w.nodes a n
        some ⟨list, nodes, afterNode a n w.seq⟩
  | .remove r =>
      if r ∉ w.seq then none
      else
        let (list, nodes) := remove sizeMax w.list w.nodes r
        some ⟨list, nodes, w.seq.erase r⟩
  | .removeFirst rounds compar =>
      (removeFirst sizeMax rounds w.list w.nodes compar).map fun (_, list, nodes) =>
        ⟨list, nodes, without w.seq (w.seq.find? compar)⟩
  | .removeLast rounds compar =>
      (removeLast sizeMax rounds w.list w.nodes compar).map fun (_, list, nodes) =>
        ⟨list, nodes, without w.seq (w.seq.reverse.find? compar)⟩
  | .clear => some ⟨listInit, w.nodes, []⟩

theorem beforeNode_append (h : b ∉ us) : beforeNode b n (us ++ b :: vs) = us ++ n :: b :: vs := by
  induction us with
  | nil => simp [beforeNode]
  | cons u us ih =>
      obtain ⟨hu, hus⟩ := not_or.mp (mt List.mem_cons.mpr h)
      rw [List.cons_append, beforeNode, if_neg (Ne.symm hu), ih hus, List.cons_append]

theorem afterNode_append (h : a ∉ us) : afterNode a n (us ++ a :: vs) = us ++ a :: n :: vs := by
  induction us with
  | nil => simp [afterNode]
  | cons u us ih =>
      obtain ⟨hu, hus⟩ := not_or.mp (mt List.mem_cons.mpr h)
      rw [List.cons_append, afterNode, if_neg (Ne.symm hu), ih hus, List.cons_append]

/-- What a call that is made does to a list in step with its sequence. -/
inductive Made (sizeMax : Nat) (w : World α) : Call α → World α → Prop where
  | pushFront (n : α) (hn : n ∉ w.seq) : Made sizeMax w (.pushFront n)
      ⟨(pushFront sizeMax w.list w.nodes n).1, (pushFront sizeMax w.list w.nodes n).2, n :: w.seq⟩
  | pushBack (n : α) (hn : n ∉ w.seq) : Made sizeMax w (.pushBack n)
      ⟨(pushBack sizeMax w.list w.nodes n).1, (pushBack sizeMax w.list w.nodes n).2, w.seq ++ [n]⟩
  | insertBefore (us vs : List α) (b n : α) (hseq : w.seq = us ++ b :: vs) (hn : n ∉ w.seq) :
      Made sizeMax w (.insertBefore b n)
        ⟨(insertBefore w.list w.nodes b n).1, (insertBefore w.list w.nodes b n).2,
          us ++ n :: b :: vs⟩
  | insertAfter (us vs : List α) (a n : α) (hseq : w.seq = us ++ a :: vs) (hn : n ∉ w.seq) :
      Made sizeMax w (.insertAfter a n)
        ⟨(insertAfter w.list w.nodes a n).1, (insertAfter w.list w.nodes a n).2,
          us ++ a :: n :: vs⟩
  | removed (c : Call α) (hc : ¬ c.IsInsert) (r : α) (hr : r ∈ w.seq) : Made sizeMax w c
      ⟨(remove sizeMax w.list w.nodes r).1, (remove sizeMax w.list w.nodes r).2, w.seq.erase r⟩
  | unchanged (c : Call α) (hc : ¬ c.IsInsert) : Made sizeMax w c w
  | cleared : Made sizeMax w .clear ⟨listInit, w.nodes, []⟩

theorem removeFound_made {w : World α} {c : Call α} {list' : Header α} {nodes' : Nodes α}
    {err : Err} (hc : ¬ c.IsInsert) (hpath : Path link ptr xs) (hmem : ∀ x ∈ xs, x ∈ w.seq)
    (hout : (search link compar rounds ptr).map (removeFound sizeMax w.list w.nodes) =
      some (err, list', nodes')) :
    Made sizeMax w c ⟨list', nodes', without w.seq (xs.find? compar)⟩ := by
  obtain ⟨found, hfound, hout⟩ := Option.map_eq_some_iff.mp hout
  rw [← search_some hpath hfound]
  cases found with
  | none =>
      cases hout
      exact .unchanged c hc
  | some a =>
      have ha := hmem a (List.mem_of_find?_eq_some (search_some hpath hfound).symm)
      cases hout
      exact .removed c hc a ha

theorem step_made {w w' : World α} {c : Call α} (h : Represents w.list w.nodes w.seq)
    (hstep : step sizeMax w c = some w') : Made sizeMax w c w' := by
  cases c with
  | pushFront n =>
      obtain ⟨hn, heq⟩ := Option.ite_none_left_eq_some.mp hstep
      cases heq
      exact .pushFront n hn
  | pushBack n =>
      obtain ⟨hn, heq⟩ := Option.ite_none_left_eq_some.mp hstep
      cases heq
      exact .pushBack n hn
  | insertBefore b n =>
      obtain ⟨hguard, heq⟩ := Option.ite_none_left_eq_some.mp hstep
      obtain ⟨hb, hn⟩ := not_or.mp hguard
      obtain ⟨us, vs, hus, hseq, -⟩ := List.exists_erase_eq (not_not.mp hb)
      rw [hseq, beforeNode_append hus] at heq
      cases heq
      exact .insertBefore us vs b n hseq hn
  | insertAfter a n =>
      obtain ⟨hguard, heq⟩ := Option.ite_none_left_eq_some.mp hstep
      obtain ⟨ha, hn⟩ := not_or.mp hguard
      obtain ⟨us, vs, hus, hseq, -⟩ := List.exists_erase_eq (not_not.mp ha)
      rw [hseq, afterNode_append hus] at heq
      cases heq
      exact .insertAfter us vs a n hseq hn
  | remove r =>
      obtain ⟨hr, heq⟩ := Option.ite_none_left_eq_some.mp hstep
      cases heq
      exact .removed (.remove r) not_false r (not_not.mp hr)
  | removeFirst rounds compar =>
      obtain ⟨⟨err, list, nodes⟩, hout, rfl⟩ := Option.map_eq_some_iff.mp hstep
      exact removeFound_made not_false h.forward (fun x hx => hx) hout
  | removeLast rounds compar =>
      obtain ⟨⟨err, list, nodes⟩, hout, rfl⟩ := Option.map_eq_some_iff.mp hstep
      exact removeFound_made not_false h.backward (fun x hx => List.mem_reverse.mp hx) hout
  | clear =>
      cases hstep
      exact .cleared

/-- Every call that the nodes allow keeps the links in step with the sequence. -/
theorem step_represents {w w' : World α} {c : Call α} (hstep : step sizeMax w c = some w')
    (h : Represents w.list w.nodes w.seq) : Represents w'.list w'.nodes w'.seq := by
  cases step_made h hstep with
  | pushFront n hn => exact pushFront_represents h hn
  | pushBack n hn => exact pushBack_represents h hn
  | insertBefore us vs b n hseq hn =>
      rw [hseq] at h hn
      exact insertBefore_represents h hn
  | insertAfter us vs a n hseq hn =>
      rw [hseq] at h hn
      exact insertAfter_represents h hn
  | removed c hc r hr => exact remove_erase h hr
  | unchanged => exact h
  | cleared => exact linked_nil ..

/-- A list in step with the sequence that its calls denote. -/
structure InStep (sizeMax : Nat) (w : World α) : Prop where
  /-- following `next` from the head and `prev` from the tail -/
  represents : Represents w.list w.nodes w.seq
  head : w.list.head = none ↔ w.seq = []
  tail : w.list.tail = none ↔ w.seq = []
  first : ∀ compar rounds, w.seq.length ≤ rounds →
    RemovesMatch w.list w.nodes w.seq (w.seq.find? compar)
      (removeFirst sizeMax rounds w.list w.nodes compar)
  last : ∀ compar rounds, w.seq.length ≤ rounds →
    RemovesMatch w.list w.nodes w.seq (w.seq.reverse.find? compar)
      (removeLast sizeMax rounds w.list w.nodes compar)

theorem inStep_of_represents {w : World α} (h : Represents w.list w.nodes w.seq) :
    InStep sizeMax w where
  represents := h
  head := by rw [h.head_eq, List.head?_eq_none_iff]
  tail := by rw [h.tail_eq, List.getLast?_eq_none_iff]
  first _ _ hrounds := removeFirst_matches h hrounds
  last _ _ hrounds := removeLast_matches h hrounds

theorem visits_represents (sizeMax : Nat) (nodes : Nodes α) (cs : List (Call α)) :
    Visits (step sizeMax) (fun w => Represents w.list w.nodes w.seq) (World.start nodes) cs :=
  visits_of_invariant (fun _ _ _ hstep h => step_represents hstep h) cs (linked_nil _ _)

/-- After every call on a list from `fpx_list_init` its links implement the sequence that the
calls denote, and the removals by a predicate take the first and the last node that matches,
or nothing. -/
theorem list_implements_sequence (sizeMax : Nat) (nodes : Nodes α) (cs : List (Call α)) :
    Visits (step sizeMax) (InStep sizeMax) (World.start nodes) cs :=
  (visits_represents sizeMax nodes cs).mono fun _ h => inStep_of_represents h

end Floppix.Lists
