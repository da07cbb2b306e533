import Mathlib.Logic.Function.Basic

/-! # Who holds which resource

Resources come into being and end, and holders have one each or none. All is well as long
as each resource that there is has exactly one holder and nobody holds one that is gone. A
holder that is given a second resource loses the first one for good, and a resource that
is only written down as held is not there.
-/

namespace Custody

variable {κ ρ : Type*}

/-- Every resource that there is has one holder, and every holder has one that there is. -/
structure Exact (hold : κ → Option ρ) (live : ρ → Bool) : Prop where
  lives : ∀ {k r}, hold k = some r → live r = true
  held : ∀ {r}, live r = true → ∃ k, hold k = some r
  single : ∀ {k k' r}, hold k = some r → hold k' = some r → k = k'

theorem exact_empty : Exact (fun _ : κ => (none : Option ρ)) fun _ => false where
  lives h := nomatch h
  held h := nomatch h
  single h := nomatch h

variable [DecidableEq κ] {hold : κ → Option ρ} {live : ρ → Bool} {k : κ} {r : ρ}

/-- Writing down what a holder has changes nothing. -/
theorem Exact.same (h : Exact hold live) (hk : hold k = none) :
    Exact (Function.update hold k none) live := by
  rw [← hk, Function.update_eq_self]
  exact h

theorem Exact.forget_iff (h : Exact hold live) :
    Exact (Function.update hold k none) live ↔ hold k = none := by
  constructor
  · intro hforgot
    cases hk : hold k with
    | none => rfl
    | some r =>
        obtain ⟨k', hk'⟩ := hforgot.held (h.lives hk)
        by_cases heq : k' = k
        · rw [heq, Function.update_self] at hk'
          cases hk'
        · rw [Function.update_of_ne heq] at hk'
          exact absurd (h.single hk' hk) heq
  · exact h.same

/-- A resource that is there already, or is not there at all, is not one to write down for
a holder without any. -/
theorem Exact.not_forged (h : Exact hold live) (hk : hold k = none) :
    ¬ Exact (Function.update hold k (some r)) live := by
  intro hforged
  have hlive : live r = true := hforged.lives (Function.update_self ..)
  obtain ⟨k', hk'⟩ := h.held hlive
  have hne : k' ≠ k := by
    intro heq
    rw [heq, hk] at hk'
    cases hk'
  have hother : Function.update hold k (some r) k' = some r := by
    rw [Function.update_of_ne hne, hk']
  exact hne (hforged.single hother (Function.update_self ..))

variable [DecidableEq ρ]

theorem Exact.take_iff (h : Exact hold live) (hr : live r = false) :
    Exact (Function.update hold k (some r)) (Function.update live r true) ↔ hold k = none := by
  have hfresh {k' : κ} {r' : ρ} (hk' : hold k' = some r') : r' ≠ r := by
    intro heq
    have hlive := h.lives hk'
    rw [heq, hr] at hlive
    cases hlive
  constructor
  · intro htaken
    cases hk : hold k with
    | none => rfl
    | some old =>
        have hlive : Function.update live r true old = true := by
          rw [Function.update_of_ne (hfresh hk), h.lives hk]
        obtain ⟨k', hk'⟩ := htaken.held hlive
        by_cases heq : k' = k
        · rw [heq, Function.update_self] at hk'
          exact absurd (Option.some.inj hk').symm (hfresh hk)
        · rw [Function.update_of_ne heq] at hk'
          exact absurd (h.single hk' hk) heq
  · intro hk
    constructor
    · intro k' r' hk'
      by_cases heq : k' = k
      · rw [heq, Function.update_self] at hk'
        cases hk'
        exact Function.update_self ..
      · rw [Function.update_of_ne heq] at hk'
        rw [Function.update_of_ne (hfresh hk'), h.lives hk']
    · intro r' hr'
      by_cases heq : r' = r
      · exact ⟨k, by rw [heq, Function.update_self]⟩
      · rw [Function.update_of_ne heq] at hr'
        obtain ⟨k', hk'⟩ := h.held hr'
        have hne : k' ≠ k := by
          intro hkk
          rw [hkk, hk] at hk'
          cases hk'
        exact ⟨k', by rw [Function.update_of_ne hne, hk']⟩
    · intro k₁ k₂ r' h₁ h₂
      by_cases heq₁ : k₁ = k
      · by_cases heq₂ : k₂ = k
        · rw [heq₁, heq₂]
        · rw [heq₁, Function.update_self] at h₁
          rw [Function.update_of_ne heq₂] at h₂
          exact absurd (Option.some.inj h₁).symm (hfresh h₂)
      · by_cases heq₂ : k₂ = k
        · rw [heq₂, Function.update_self] at h₂
          rw [Function.update_of_ne heq₁] at h₁
          exact absurd (Option.some.inj h₂).symm (hfresh h₁)
        · rw [Function.update_of_ne heq₁] at h₁
          rw [Function.update_of_ne heq₂] at h₂
          exact h.single h₁ h₂

/-- A holder gives its resource up, and the resource ends. -/
theorem Exact.release (h : Exact hold live) (hk : hold k = some r) :
    Exact (Function.update hold k none) (Function.update live r false) := by
  constructor
  · intro k' r' hk'
    by_cases heq : k' = k
    · rw [heq, Function.update_self] at hk'
      cases hk'
    · rw [Function.update_of_ne heq] at hk'
      have hne : r' ≠ r := by
        intro hrr
        rw [hrr] at hk'
        exact heq (h.single hk' hk)
      rw [Function.update_of_ne hne, h.lives hk']
  · intro r' hr'
    by_cases heq : r' = r
    · rw [heq, Function.update_self] at hr'
      cases hr'
    · rw [Function.update_of_ne heq] at hr'
      obtain ⟨k', hk'⟩ := h.held hr'
      have hne : k' ≠ k := by
        intro hkk
        rw [hkk, hk] at hk'
        exact heq (Option.some.inj hk').symm
      exact ⟨k', by rw [Function.update_of_ne hne, hk']⟩
  · intro k₁ k₂ r' h₁ h₂
    have hother {k' : κ} (hk' : Function.update hold k none k' = some r') : hold k' = some r' := by
      by_cases heq : k' = k
      · rw [heq, Function.update_self] at hk'
        cases hk'
      · rwa [Function.update_of_ne heq] at hk'
    exact h.single (hother h₁) (hother h₂)

omit [DecidableEq κ] in
/-- A resource that somebody holds cannot end behind his back. -/
theorem Exact.not_ended (h : Exact hold live) (hr : live r = true) :
    ¬ Exact hold (Function.update live r false) := by
  intro hended
  obtain ⟨k, hk⟩ := h.held hr
  have hlive := hended.lives hk
  rw [Function.update_self] at hlive
  cases hlive

end Custody
