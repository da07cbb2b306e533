import Mathlib.Data.List.Forall2

/-! # One pass over a list of flagged items

A pass goes through a list and attempts every item until an attempt fails. An attempt
that succeeds sets the item's flag, and the pass ends at the first item whose flag is
set already. Repeated passes therefore do everything or nothing: either no flag is set
yet, or the pass ends where it begins.
-/

namespace Pass

variable {M A S E : Type*}

/-- What one attempt returns: the item with the loop's variable and the state, behind a
status where it fails. -/
abbrev Attempt (M A S E : Type*) := A → M → S → Except (E × M × S) (A × M × S)

def pass (flag : M → Bool) (attempt : Attempt M A S E) : A → List M → S → Option E × List M × S
  | _, [], s => (none, [], s)
  | a, m :: ms, s =>
      if flag m then (none, m :: ms, s)
      else
        match attempt a m s with
        | .error (e, m', s') => (some e, m' :: ms, s')
        | .ok (a', m', s') =>
            let (status, ms', s'') := pass flag attempt a' ms s'
            (status, m' :: ms', s'')

/-- What a pass may make of an item. -/
inductive Attempted (flag : M → Bool) (attempt : Attempt M A S E) (m : M) : M → Prop where
  | untouched : Attempted flag attempt m m
  | failed {a : A} {s s' : S} {e : E} {m' : M} (hflag : flag m = false)
      (h : attempt a m s = .error (e, m', s')) : Attempted flag attempt m m'
  | succeeded {a a' : A} {s s' : S} {m' : M} (hflag : flag m = false)
      (h : attempt a m s = .ok (a', m', s')) : Attempted flag attempt m m'

variable {flag : M → Bool} {attempt : Attempt M A S E} {a : A} {m : M} {ms : List M} {s : S}

theorem pass_flagged (h : flag m = true) :
    pass flag attempt a (m :: ms) s = (none, m :: ms, s) := by
  simp only [pass, h, if_true]

theorem pass_failed {e : E} {m' : M} {s' : S} (h : flag m = false)
    (ha : attempt a m s = .error (e, m', s')) :
    pass flag attempt a (m :: ms) s = (some e, m' :: ms, s') := by
  simp only [pass, h, ha, Bool.false_eq_true, if_false]

theorem pass_succeeded {a' : A} {m' : M} {s' : S} (h : flag m = false)
    (ha : attempt a m s = .ok (a', m', s')) :
    pass flag attempt a (m :: ms) s =
      ((pass flag attempt a' ms s').1, m' :: (pass flag attempt a' ms s').2.1,
        (pass flag attempt a' ms s').2.2) := by
  simp only [pass, h, ha, Bool.false_eq_true, if_false]

/-- Every item stays in its place, and what becomes of it is untouched, failed or
succeeded. -/
theorem pass_forall₂ (a : A) (ms : List M) (s : S) :
    List.Forall₂ (Attempted flag attempt) ms (pass flag attempt a ms s).2.1 := by
  induction ms generalizing a s with
  | nil => exact .nil
  | cons m ms ih =>
      have hsame : List.Forall₂ (Attempted flag attempt) ms ms :=
        List.forall₂_same.mpr fun _ _ => .untouched
      cases hflag : flag m with
      | true =>
          rw [pass_flagged hflag]
          exact .cons .untouched hsame
      | false =>
          cases ha : attempt a m s with
          | error out =>
              rw [pass_failed hflag ha]
              exact .cons (.failed hflag ha) hsame
          | ok out =>
              rw [pass_succeeded hflag ha]
              exact .cons (.succeeded hflag ha) (ih _ _)

theorem exists_of_forall₂ {R : M → M → Prop} {xs ys : List M} (h : List.Forall₂ R xs ys) :
    (∀ x ∈ xs, ∃ y ∈ ys, R x y) ∧ ∀ y ∈ ys, ∃ x ∈ xs, R x y := by
  induction h with
  | nil => simp
  | cons hxy _ ih =>
      obtain ⟨hl, hr⟩ := ih
      constructor
      · refine List.forall_mem_cons.mpr ⟨⟨_, List.mem_cons_self .., hxy⟩, fun x hx => ?_⟩
        obtain ⟨y, hy, h⟩ := hl x hx
        exact ⟨y, List.mem_cons_of_mem _ hy, h⟩
      · refine List.forall_mem_cons.mpr ⟨⟨_, List.mem_cons_self .., hxy⟩, fun y hy => ?_⟩
        obtain ⟨x, hx, h⟩ := hr y hy
        exact ⟨x, List.mem_cons_of_mem _ hx, h⟩

/-- What every attempt keeps of an item, the pass keeps of all of them. -/
theorem pass_forall {P : M → Prop} (hP : ∀ m m', Attempted flag attempt m m' → P m → P m')
    (h : ∀ m ∈ ms, P m) : ∀ m' ∈ (pass flag attempt a ms s).2.1, P m' := by
  intro m' hm'
  obtain ⟨m, hm, hattempted⟩ := (exists_of_forall₂ (pass_forall₂ a ms s)).2 m' hm'
  exact hP m m' hattempted (h m hm)

theorem pass_some {e : E} (h : (pass flag attempt a ms s).1 = some e) :
    ∃ m ∈ ms, ∃ a s m' s', attempt a m s = .error (e, m', s') := by
  induction ms generalizing a s with
  | nil => cases h
  | cons m ms ih =>
      cases hflag : flag m with
      | true =>
          rw [pass_flagged hflag] at h
          cases h
      | false =>
          cases ha : attempt a m s with
          | error out =>
              rw [pass_failed hflag ha] at h
              cases h
              exact ⟨m, List.mem_cons_self .., a, s, _, _, ha⟩
          | ok out =>
              rw [pass_succeeded hflag ha] at h
              obtain ⟨x, hx, hrest⟩ := ih h
              exact ⟨x, List.mem_cons_of_mem m hx, hrest⟩

/-! ## The pattern of the flags -/

variable (flag) in
/-- The items with the flag stand in front of those without. -/
def FlagsFirst (ms : List M) : Prop := ms.Pairwise fun x y => flag y = true → flag x = true

variable (flag) in
def Mixed (ms : List M) : Prop := (∃ m ∈ ms, flag m = true) ∧ ∃ m ∈ ms, flag m = false

variable (flag attempt) in
structure Sets : Prop where
  succeeded : ∀ {a m s a' m' s'}, attempt a m s = .ok (a', m', s') → flag m' = true
  failed : ∀ {a m s e m' s'}, flag m = false → attempt a m s = .error (e, m', s') →
    flag m' = false

theorem FlagsFirst.tail_false (h : FlagsFirst flag (m :: ms)) (hm : flag m = false) :
    ∀ x ∈ ms, flag x = false := by
  intro x hx
  by_contra hne
  have := (List.pairwise_cons.mp h).1 x hx (by simpa using hne)
  rw [hm] at this
  cases this

theorem flagsFirst_of_fresh (h : ∀ m ∈ ms, flag m = false) : FlagsFirst flag ms :=
  List.pairwise_of_forall_mem_list fun x _ y hy hf => by
    rw [h y hy] at hf
    cases hf

theorem pass_flagsFirst (hsets : Sets flag attempt) (h : FlagsFirst flag ms) :
    FlagsFirst flag (pass flag attempt a ms s).2.1 := by
  induction ms generalizing a s with
  | nil => exact h
  | cons m ms ih =>
      cases hflag : flag m with
      | true => rw [pass_flagged hflag]; exact h
      | false =>
          cases ha : attempt a m s with
          | error out =>
              rw [pass_failed hflag ha]
              have hrest := h.tail_false hflag
              exact flagsFirst_of_fresh
                (List.forall_mem_cons.mpr ⟨hsets.failed hflag ha, hrest⟩)
          | ok out =>
              rw [pass_succeeded hflag ha]
              refine List.pairwise_cons.mpr ⟨fun _ _ _ => hsets.succeeded ha, ih ?_⟩
              exact (List.pairwise_cons.mp h).2

theorem pass_mixed (h : FlagsFirst flag ms) (hmixed : Mixed flag ms) (a : A) (s : S) :
    pass flag attempt a ms s = (none, ms, s) := by
  cases ms with
  | nil => rfl
  | cons m ms =>
      apply pass_flagged
      obtain ⟨⟨x, hx, hflag⟩, -⟩ := hmixed
      rcases List.mem_cons.mp hx with rfl | hx
      · exact hflag
      · exact (List.pairwise_cons.mp h).1 x hx hflag

theorem pass_done (h : ∀ m ∈ ms, flag m = true) (a : A) (s : S) :
    pass flag attempt a ms s = (none, ms, s) := by
  cases ms with
  | nil => rfl
  | cons m ms => exact pass_flagged (h m (List.mem_cons_self ..))

theorem done_or_fresh (h : ¬ Mixed flag ms) :
    (∀ m ∈ ms, flag m = true) ∨ ∀ m ∈ ms, flag m = false := by
  by_cases hany : ∃ m ∈ ms, flag m = true
  · apply Or.inl
    intro m hm
    by_contra hflag
    exact h ⟨hany, m, hm, by simpa using hflag⟩
  · apply Or.inr
    intro m hm
    by_contra hflag
    exact hany ⟨m, hm, by simpa using hflag⟩

/-- A pass that goes through a list without flags has succeeded with every item. -/
theorem pass_fresh (h : ∀ m ∈ ms, flag m = false) (hok : (pass flag attempt a ms s).1 = none) :
    ∀ m' ∈ (pass flag attempt a ms s).2.1,
      ∃ m ∈ ms, ∃ a s a' s', attempt a m s = .ok (a', m', s') := by
  induction ms generalizing a s with
  | nil => intro m' hm'; cases hm'
  | cons m ms ih =>
      have hflag := h m (List.mem_cons_self ..)
      cases ha : attempt a m s with
      | error out =>
          rw [pass_failed hflag ha] at hok
          cases hok
      | ok out =>
          rw [pass_succeeded hflag ha] at hok ⊢
          refine List.forall_mem_cons.mpr ⟨⟨m, List.mem_cons_self .., a, s, _, _, ha⟩, ?_⟩
          intro m' hm'
          obtain ⟨x, hx, hrest⟩ := ih (fun y hy => h y (List.mem_cons_of_mem m hy)) hok m' hm'
          exact ⟨x, List.mem_cons_of_mem m hx, hrest⟩

theorem pass_congr {attempt' : Attempt M A S E} {good : A → Prop} (hgood : good a)
    (hkeep : ∀ {a m s a' m' s'}, good a → attempt a m s = .ok (a', m', s') → good a')
    (h : ∀ a m s, good a → attempt a m s = attempt' a m s) :
    pass flag attempt a ms s = pass flag attempt' a ms s := by
  induction ms generalizing a s with
  | nil => rfl
  | cons m ms ih =>
      have hsame := h a m s hgood
      simp only [pass, ← hsame]
      split
      · rfl
      · split
        · rfl
        · rename_i ha
          rw [ih (hkeep hgood ha)]

end Pass
