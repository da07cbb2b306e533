import Floppix.Lib.Transition

/-! # Simulations between partial transition functions

A concrete system is read as a state of an abstract one. Each concrete step is
matched by a list of abstract actions, which is empty where the step is internal,
and a run by what its steps are matched by, one after the other.
-/

namespace Transition

variable {σ τ α β : Type*}

def trace (step : σ → α → Option σ) (label : σ → α → List β) : σ → List α → List β
  | _, [] => []
  | s, a :: as => label s a ++ (step s a).elim [] fun t => trace step label t as

/-- `view` and `label` turn the steps of one system into runs of another, as long as `I`
holds. -/
structure Simulates (step : σ → α → Option σ) (spec : τ → β → Option τ) (I : σ → Prop)
    (view : σ → τ) (label : σ → α → List β) : Prop where
  kept : ∀ s a t, step s a = some t → I s → I t
  matched : ∀ s a t, step s a = some t → I s → run spec (view s) (label s a) = some (view t)

variable {step : σ → α → Option σ} {spec : τ → β → Option τ} {I : σ → Prop} {view : σ → τ}
  {label : σ → α → List β}

theorem trace_cons_some {s t : σ} {a : α} (as : List α) (h : step s a = some t) :
    trace step label s (a :: as) = label s a ++ trace step label t as := by
  rw [trace, h]
  rfl

/-- A run whose steps meet a condition is, action by action, a run of the abstract system,
if such steps are matched as long as `I` holds. -/
theorem run_trace {C : σ → α → Prop} (hkept : ∀ s a t, step s a = some t → C s a → I s → I t)
    (hmatched : ∀ s a t, step s a = some t → C s a → I s →
      run spec (view s) (label s a) = some (view t)) {s t : σ} {as : List α}
    (h : run step s as = some t) (hC : Meets step C s as) (hs : I s) :
    run spec (view s) (trace step label s as) = some (view t) := by
  induction as generalizing s with
  | nil =>
      cases h
      rfl
  | cons a as ih =>
      obtain ⟨m, hm, hrest⟩ := run_cons_some h
      rw [trace_cons_some as hm]
      exact run_trans (hmatched s a m hm hC.1 hs) (ih hrest (hC.2 m hm) (hkept s a m hm hC.1 hs))

/-- What every step keeps between the state and what its actions have made of an abstract one,
a run keeps too. -/
theorem foldl_trace {C : σ → α → Prop} {R : σ → τ → Prop} {act : τ → β → τ}
    (hstep : ∀ s a t x, step s a = some t → C s a → R s x → R t ((label s a).foldl act x))
    {s t : σ} {x : τ} {as : List α} (h : run step s as = some t) (hC : Meets step C s as)
    (hs : R s x) : R t ((trace step label s as).foldl act x) := by
  induction as generalizing s x with
  | nil =>
      cases h
      exact hs
  | cons a as ih =>
      obtain ⟨m, hm, hrest⟩ := run_cons_some h
      rw [trace_cons_some as hm, List.foldl_append]
      exact ih hrest (hC.2 m hm) (hstep s a m x hm hC.1 hs)

theorem forall_trace {C : σ → α → Prop} {Q : β → Prop}
    (hkept : ∀ s a t, step s a = some t → C s a → I s → I t)
    (hlabel : ∀ s a t, step s a = some t → C s a → I s → ∀ b ∈ label s a, Q b)
    {s t : σ} {as : List α} (h : run step s as = some t) (hC : Meets step C s as) (hs : I s) :
    ∀ b ∈ trace step label s as, Q b := by
  induction as generalizing s with
  | nil =>
      intro b hb
      cases hb
  | cons a as ih =>
      obtain ⟨m, hm, hrest⟩ := run_cons_some h
      rw [trace_cons_some as hm]
      intro b hb
      cases List.mem_append.mp hb with
      | inl hfirst => exact hlabel s a m hm hC.1 hs b hfirst
      | inr hlater => exact ih hrest (hC.2 m hm) (hkept s a m hm hC.1 hs) b hlater

/-- A run of the concrete system is, action by action, a run of the abstract one. -/
theorem Simulates.run (hsim : Simulates step spec I view label) {s t : σ} {as : List α}
    (h : run step s as = some t) (hs : I s) :
    Transition.run spec (view s) (trace step label s as) = some (view t) := by
  have hall : Meets step (fun _ _ => True) s as :=
    meets_of_invariant hsim.kept (fun _ _ _ => trivial) as hs
  exact run_trace (fun s a t hstep _ => hsim.kept s a t hstep)
    (fun s a t hstep _ => hsim.matched s a t hstep) h hall hs

end Transition
