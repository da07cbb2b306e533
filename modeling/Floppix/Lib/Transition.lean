import Mathlib.Data.List.Basic

/-! # Runs of partial transition functions

A step takes a state and an action and is `none` where the action is not
enabled. Runs follow a list of actions. An invariant proved for one step holds
along every run, and a condition on the steps of a run may be assumed while the
invariant is carried.
-/

namespace Transition

variable {σ α : Type*}

/-- Follow the actions in order; `none` as soon as one of them is not enabled. -/
def run (step : σ → α → Option σ) : σ → List α → Option σ
  | s, [] => some s
  | s, a :: as => (step s a).bind fun t => run step t as

/-- `t` is the state after some finite run from `s`. -/
def Reaches (step : σ → α → Option σ) (s t : σ) : Prop :=
  ∃ as, run step s as = some t

variable {step : σ → α → Option σ}

@[simp] theorem run_nil (s : σ) : run step s [] = some s := rfl

theorem run_cons (s : σ) (a : α) (as : List α) :
    run step s (a :: as) = (step s a).bind fun t => run step t as := rfl

theorem run_cons_some {s t : σ} {a : α} {as : List α} (h : run step s (a :: as) = some t) :
    ∃ m, step s a = some m ∧ run step m as = some t := by
  rw [run_cons] at h
  exact Option.bind_eq_some_iff.mp h

theorem run_append (s : σ) (as bs : List α) :
    run step s (as ++ bs) = (run step s as).bind fun t => run step t bs := by
  induction as generalizing s with
  | nil => rfl
  | cons a as ih =>
      cases h : step s a with
      | none => simp [run_cons, h]
      | some t => simp [run_cons, h, ih]

theorem run_trans {s t u : σ} {as bs : List α} (h₁ : run step s as = some t)
    (h₂ : run step t bs = some u) : run step s (as ++ bs) = some u := by
  rw [run_append, h₁]
  exact h₂

theorem Reaches.refl (s : σ) : Reaches step s s := ⟨[], rfl⟩

theorem Reaches.trans {s t u : σ} (h₁ : Reaches step s t) (h₂ : Reaches step t u) :
    Reaches step s u := by
  obtain ⟨as, ha⟩ := h₁
  obtain ⟨bs, hb⟩ := h₂
  exact ⟨as ++ bs, run_trans ha hb⟩

theorem Reaches.single {s t : σ} {a : α} (h : step s a = some t) : Reaches step s t :=
  ⟨[a], by rw [run_cons, h]; rfl⟩

theorem Reaches.head {s t u : σ} {a : α} (h : step s a = some t) (hr : Reaches step t u) :
    Reaches step s u := (Reaches.single h).trans hr

/-! ## Invariants -/

/-- What every step preserves, every run preserves. -/
theorem run_invariant {I : σ → Prop}
    (hstep : ∀ s a t, step s a = some t → I s → I t) {s t : σ} {as : List α}
    (h : run step s as = some t) (hs : I s) : I t := by
  induction as generalizing s with
  | nil => cases h; exact hs
  | cons a as ih =>
      obtain ⟨m, hm, hrest⟩ := run_cons_some h
      exact ih hrest (hstep s a m hm hs)

theorem Reaches.invariant {I : σ → Prop}
    (hstep : ∀ s a t, step s a = some t → I s → I t) {s t : σ}
    (h : Reaches step s t) (hs : I s) : I t := by
  obtain ⟨as, ha⟩ := h
  exact run_invariant hstep ha hs

/-! ## Conditions on the steps of a run -/

/-- Every step of the run satisfies `C` in the state it is taken from. -/
def Meets (step : σ → α → Option σ) (C : σ → α → Prop) : σ → List α → Prop
  | _, [] => True
  | s, a :: as => C s a ∧ ∀ t, step s a = some t → Meets step C t as

/-- Every state the run visits satisfies `P`, the first and the last included. -/
def Visits (step : σ → α → Option σ) (P : σ → Prop) : σ → List α → Prop
  | s, [] => P s
  | s, a :: as => P s ∧ ∀ t, step s a = some t → Visits step P t as

variable {C : σ → α → Prop} {P : σ → Prop}

instance Meets.decidable (step : σ → α → Option σ) (C : σ → α → Prop)
    [∀ s a, Decidable (C s a)] : ∀ (s : σ) (as : List α), Decidable (Meets step C s as)
  | _, [] => isTrue trivial
  | s, a :: as =>
      match h : step s a with
      | none => decidable_of_iff (C s a) (by simp [Meets, h])
      | some t =>
          haveI := Meets.decidable step C t as
          decidable_of_iff (C s a ∧ Meets step C t as) (by simp [Meets, h])

theorem Meets.cons {s t : σ} {a : α} {as : List α} (hC : C s a) (ht : step s a = some t)
    (h : Meets step C t as) : Meets step C s (a :: as) := by
  refine ⟨hC, fun u hu => ?_⟩
  rw [ht] at hu
  cases hu
  exact h

theorem meets_append {s t : σ} {as bs : List α} (h : run step s as = some t) :
    Meets step C s (as ++ bs) ↔ Meets step C s as ∧ Meets step C t bs := by
  induction as generalizing s with
  | nil =>
      cases h
      exact (and_iff_right trivial).symm
  | cons a as ih =>
      obtain ⟨m, hm, hrest⟩ := run_cons_some h
      constructor
      · intro hall
        have hboth := (ih hrest).mp (hall.2 m hm)
        exact ⟨Meets.cons hall.1 hm hboth.1, hboth.2⟩
      · intro hboth
        exact Meets.cons hboth.1.1 hm ((ih hrest).mpr ⟨hboth.1.2 m hm, hboth.2⟩)

theorem Visits.head {s : σ} {as : List α} (h : Visits step P s as) : P s := by
  cases as with
  | nil => exact h
  | cons a as => exact h.1

theorem Visits.last {s t : σ} {as : List α} (h : Visits step P s as)
    (hr : run step s as = some t) : P t := by
  induction as generalizing s with
  | nil => cases hr; exact h
  | cons a as ih =>
      obtain ⟨m, hm, hrest⟩ := run_cons_some hr
      exact ih (h.2 m hm) hrest

/-- An invariant kept by the steps that meet the condition holds in every state
visited by a run all of whose steps meet it. -/
theorem visits_of_meets {I : σ → Prop}
    (hstep : ∀ s a t, step s a = some t → C s a → I s → I t)
    {s : σ} {as : List α} (hC : Meets step C s as) (hs : I s) : Visits step I s as := by
  induction as generalizing s with
  | nil => exact hs
  | cons a as ih =>
      exact ⟨hs, fun t ht => ih (hC.2 t ht) (hstep s a t ht hC.1 hs)⟩

theorem visits_of_invariant {I : σ → Prop}
    (hstep : ∀ s a t, step s a = some t → I s → I t)
    {s : σ} (as : List α) (hs : I s) : Visits step I s as := by
  induction as generalizing s with
  | nil => exact hs
  | cons a as ih => exact ⟨hs, fun t ht => ih (hstep s a t ht hs)⟩

theorem meets_of_invariant {I : σ → Prop}
    (hstep : ∀ s a t, step s a = some t → I s → I t) (hC : ∀ s a, I s → C s a)
    {s : σ} (as : List α) (hs : I s) : Meets step C s as := by
  induction as generalizing s with
  | nil => trivial
  | cons a as ih => exact ⟨hC s a hs, fun t ht => ih (hstep s a t ht hs)⟩

/-- Where the condition on a step is exactly that it keeps the property, a run visits
only states with the property when all its steps meet the condition. -/
theorem visits_iff_meets
    (hstep : ∀ s a, P s → (C s a ↔ ∀ t, step s a = some t → P t))
    {s : σ} (as : List α) (hs : P s) : Visits step P s as ↔ Meets step C s as := by
  induction as generalizing s with
  | nil => exact ⟨fun _ => trivial, fun _ => hs⟩
  | cons a as ih =>
      constructor
      · intro h
        have hnext : ∀ t, step s a = some t → P t := fun t ht => (h.2 t ht).head
        exact ⟨(hstep s a hs).mpr hnext, fun t ht => (ih (hnext t ht)).mp (h.2 t ht)⟩
      · intro h
        have hnext := (hstep s a hs).mp h.1
        exact ⟨hs, fun t ht => (ih (hnext t ht)).mpr (h.2 t ht)⟩

/-- The same along a run that is possible, where its steps meet another condition and keep
an invariant. -/
theorem visits_iff_meets_of_kept {I : σ → Prop} {D : σ → α → Prop}
    (hkept : ∀ s a t, step s a = some t → D s a → I s → I t)
    (hstep : ∀ s a t, step s a = some t → D s a → I s → P s → (C s a ↔ P t)) {s t : σ} {as : List α}
    (h : run step s as = some t) (hD : Meets step D s as) (hI : I s) (hs : P s) :
    Visits step P s as ↔ Meets step C s as := by
  induction as generalizing s with
  | nil => exact ⟨fun _ => trivial, fun _ => hs⟩
  | cons a as ih =>
      obtain ⟨m, hm, hrest⟩ := run_cons_some h
      have hiff := hstep s a m hm hD.1 hI hs
      have hrun (hpm : P m) := ih hrest (hD.2 m hm) (hkept s a m hm hD.1 hI) hpm
      constructor
      · intro hvisits
        have hnext := hvisits.2 m hm
        exact Meets.cons (hiff.mpr hnext.head) hm ((hrun hnext.head).mp hnext)
      · intro hmeets
        have hpm := hiff.mp hmeets.1
        refine ⟨hs, fun u hu => ?_⟩
        rw [hm] at hu
        cases hu
        exact (hrun hpm).mpr (hmeets.2 m hm)

/-- The same along any run that is possible. -/
theorem visits_iff_meets_of_run
    (hstep : ∀ s a t, P s → step s a = some t → (C s a ↔ P t)) {s t : σ} {as : List α}
    (h : run step s as = some t) (hs : P s) : Visits step P s as ↔ Meets step C s as := by
  have hall : Meets step (fun _ _ => True) s as :=
    meets_of_invariant (I := fun _ => True) (fun _ _ _ _ h => h) (fun _ _ _ => trivial) as trivial
  exact visits_iff_meets_of_kept (I := fun _ => True) (fun _ _ _ _ _ h => h)
    (fun s a t ht _ _ hs => hstep s a t hs ht) h hall trivial hs

theorem Visits.mono {Q : σ → Prop} (hPQ : ∀ s, P s → Q s) {s : σ} {as : List α}
    (h : Visits step P s as) : Visits step Q s as := by
  induction as generalizing s with
  | nil => exact hPQ s h
  | cons a as ih => exact ⟨hPQ s h.1, fun t ht => ih (h.2 t ht)⟩

theorem Visits.and {Q : σ → Prop} {s : σ} {as : List α} (h : Visits step P s as)
    (h' : Visits step Q s as) : Visits step (fun s => P s ∧ Q s) s as := by
  induction as generalizing s with
  | nil => exact ⟨h, h'⟩
  | cons a as ih => exact ⟨⟨h.1, h'.1⟩, fun t ht => ih (h.2 t ht) (h'.2 t ht)⟩

end Transition
