import Mathlib.Data.List.Nodup

/-! # Linked lists in a store

A store maps addresses to cells, and each cell has a pointer to the next one. A chain
is the finite list of addresses that such pointers run through, up to the null pointer.
There is at most one from a given pointer.
-/

namespace LinkedList

variable {α β : Type*} {cells cells' : α → Option β} {next : β → Option α}

/-- The cells at the given addresses, linked in this order from the pointer on. -/
def Chain (cells : α → Option β) (next : β → Option α) : Option α → List α → Prop
  | ptr, [] => ptr = none
  | ptr, a :: as => ptr = some a ∧ ∃ c, cells a = some c ∧ Chain cells next (next c) as

inductive Leads (cells : α → Option β) (next : β → Option α) : Option α → α → Prop
  | here (a : α) : Leads cells next (some a) a
  | on {a b : α} {c : β} (hc : cells a = some c) (h : Leads cells next (next c) b) :
      Leads cells next (some a) b

theorem chain_nil : Chain cells next none [] := rfl

theorem Chain.head_eq {ptr : Option α} {as : List α} (h : Chain cells next ptr as) :
    ptr = as.head? := by
  cases as with
  | nil => exact h
  | cons a as => exact h.1

theorem Chain.cons {a : α} {c : β} {as : List α} (hc : cells a = some c)
    (h : Chain cells next (next c) as) : Chain cells next (some a) (a :: as) :=
  ⟨rfl, c, hc, h⟩

theorem Chain.eq_nil {as : List α} (h : Chain cells next none as) : as = [] := by
  cases as with
  | nil => rfl
  | cons a as => cases h.1

theorem Chain.uncons {a : α} {as : List α} (h : Chain cells next (some a) as) :
    ∃ c rest, as = a :: rest ∧ cells a = some c ∧ Chain cells next (next c) rest := by
  cases as with
  | nil => cases h
  | cons b as =>
      obtain ⟨heq, c, hc, hrest⟩ := h
      cases heq
      exact ⟨c, as, rfl, hc, hrest⟩

theorem Chain.unique {ptr : Option α} {as bs : List α} (h : Chain cells next ptr as)
    (h' : Chain cells next ptr bs) : as = bs := by
  induction as generalizing ptr bs with
  | nil =>
      cases h
      exact h'.eq_nil.symm
  | cons a as ih =>
      obtain ⟨rfl, c, hc, hrest⟩ := h
      obtain ⟨c', rest, rfl, hc', hrest'⟩ := h'.uncons
      rw [hc] at hc'
      cases hc'
      rw [ih hrest hrest']

theorem Chain.suffix {ptr : Option α} {as : List α} {a : α} {bs : List α}
    (h : Chain cells next ptr (as ++ a :: bs)) : Chain cells next (some a) (a :: bs) := by
  induction as generalizing ptr with
  | nil => exact ⟨rfl, h.2⟩
  | cons x as ih =>
      obtain ⟨-, c, -, hrest⟩ := h
      exact ih hrest

theorem Chain.ne_some {ptr : Option α} {as : List α} {a : α} {bs : List α}
    (h : Chain cells next ptr (as ++ a :: bs)) (has : as ≠ []) : ptr ≠ some a := by
  rintro rfl
  have hlen := congrArg List.length (h.unique h.suffix)
  have hpos := List.length_pos_of_ne_nil has
  simp only [List.length_append] at hlen
  omega

theorem Chain.congr {ptr : Option α} {as : List α} (h : Chain cells next ptr as)
    (hsame : ∀ a ∈ as, ∀ c, cells a = some c → ∃ c', cells' a = some c' ∧ next c' = next c) :
    Chain cells' next ptr as := by
  induction as generalizing ptr with
  | nil => exact h
  | cons a as ih =>
      obtain ⟨hp, c, hc, hrest⟩ := h
      obtain ⟨c', hc', hn⟩ := hsame a (List.mem_cons_self ..) c hc
      exact ⟨hp, c', hc', hn ▸ ih hrest fun b hb => hsame b (List.mem_cons_of_mem a hb)⟩

theorem Chain.congr_cells {ptr : Option α} {as : List α} (h : Chain cells next ptr as)
    (hsame : ∀ a ∈ as, cells' a = cells a) : Chain cells' next ptr as :=
  h.congr fun a ha c hc => ⟨c, (hsame a ha).trans hc, rfl⟩

theorem Chain.unlink {ptr : Option α} {us : List α} {q r : α} {vs : List α} {c c' : β}
    (h : Chain cells next ptr (us ++ q :: r :: vs)) (hr : cells r = some c)
    (hq : cells' q = some c') (hnext : next c' = next c)
    (hsame : ∀ a ∈ us ++ vs, cells' a = cells a) : Chain cells' next ptr (us ++ q :: vs) := by
  induction us generalizing ptr with
  | nil =>
      obtain ⟨rfl, cq, -, hrest⟩ := h
      obtain ⟨hp, cr, hcr, hvs⟩ := hrest
      rw [hr] at hcr
      cases hcr
      exact ⟨rfl, c', hq, hnext ▸ hvs.congr_cells hsame⟩
  | cons a us ih =>
      obtain ⟨hp, ca, hca, hrest⟩ := h
      refine ⟨hp, ca, (hsame a (by simp)).trans hca, ih hrest fun b hb => hsame b ?_⟩
      exact List.mem_cons_of_mem a hb

theorem Chain.leads_iff {ptr : Option α} {as : List α} (h : Chain cells next ptr as) {a : α} :
    Leads cells next ptr a ↔ a ∈ as := by
  induction as generalizing ptr with
  | nil =>
      cases h
      exact ⟨fun hlead => (nomatch hlead), fun ha => absurd ha List.not_mem_nil⟩
  | cons b as ih =>
      obtain ⟨rfl, c, hc, hrest⟩ := h
      rw [List.mem_cons, ← ih hrest]
      constructor
      · intro hlead
        cases hlead with
        | here => exact Or.inl rfl
        | on hc' hlead =>
            rw [hc] at hc'
            cases hc'
            exact Or.inr hlead
      · rintro (rfl | hlead)
        · exact .here a
        · exact .on hc hlead

theorem Chain.cell {ptr : Option α} {as : List α} (h : Chain cells next ptr as) {a : α}
    (ha : a ∈ as) : ∃ c, cells a = some c := by
  obtain ⟨us, vs, rfl⟩ := List.append_of_mem ha
  obtain ⟨-, c, hc, -⟩ := h.suffix
  exact ⟨c, hc⟩

end LinkedList
