import Mathlib.Data.List.Basic

/-! # Folds seen through one component

A state is changed by one update after the other, and somebody looks at one component of
it. What he sees in the end depends only on the updates that touch the component: the
last one where they overwrite it, all of them where they add to it.
-/

namespace Components

variable {σ δ γ : Type*}

def applyAll (u : δ → σ → σ) (ds : List δ) (s : σ) : σ := ds.foldl (fun s d => u d s) s

variable {u : δ → σ → σ} {get : σ → γ}

@[simp] theorem applyAll_nil (s : σ) : applyAll u [] s = s := rfl

theorem applyAll_cons (d : δ) (ds : List δ) (s : σ) :
    applyAll u (d :: ds) s = applyAll u ds (u d s) := rfl

/-- Only some of the updates touch the component, and they look at nothing else. -/
structure Local (u : δ → σ → σ) (get : σ → γ) (p : δ → Bool) (v : δ → γ → γ) : Prop where
  other : ∀ d s, p d = false → get (u d s) = get s
  own : ∀ d s, p d = true → get (u d s) = v d (get s)

theorem Local.applyAll {p : δ → Bool} {v : δ → γ → γ} (h : Local u get p v) (ds : List δ) (s : σ) :
    get (applyAll u ds s) = Components.applyAll v (ds.filter p) (get s) := by
  induction ds generalizing s with
  | nil => rfl
  | cons d ds ih =>
      rw [applyAll_cons, ih]
      cases hp : p d with
      | true => rw [h.own d s hp, List.filter_cons_of_pos hp, applyAll_cons]
      | false =>
          have hskip : ¬ p d = true := by
            rw [hp]
            exact Bool.false_ne_true
          rw [h.other d s hp, List.filter_cons_of_neg hskip]

/-- An update overwrites the component with the value it has for it, if it has one. -/
def Overwrites (u : δ → σ → σ) (get : σ → γ) (value : δ → Option γ) : Prop :=
  ∀ d s, get (u d s) = (value d).getD (get s)

theorem Overwrites.applyAll {value : δ → Option γ} (h : Overwrites u get value) (ds : List δ)
    (s : σ) : get (applyAll u ds s) = (ds.filterMap value).getLast?.getD (get s) := by
  induction ds generalizing s with
  | nil => rfl
  | cons d ds ih =>
      rw [applyAll_cons, ih, h d s, List.filterMap_cons]
      cases hd : value d with
      | none => rfl
      | some x =>
          rw [List.getLast?_cons]
          rfl

/-- An update puts the entry it has for the component behind the others, if it has one. -/
def Appends {ε : Type*} (u : δ → σ → σ) (get : σ → List ε) (entry : δ → Option ε) : Prop :=
  ∀ d s, get (u d s) = get s ++ (entry d).toList

theorem Appends.applyAll {ε : Type*} {get : σ → List ε} {entry : δ → Option ε}
    (h : Appends u get entry) (ds : List δ) (s : σ) :
    get (applyAll u ds s) = get s ++ ds.filterMap entry := by
  induction ds generalizing s with
  | nil => exact (List.append_nil _).symm
  | cons d ds ih =>
      rw [applyAll_cons, ih, h d s, List.append_assoc, List.filterMap_cons]
      cases entry d <;> rfl

end Components
