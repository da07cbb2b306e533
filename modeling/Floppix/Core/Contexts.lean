import Floppix.Core.Callbacks

/-! # Whose context a module is given

The loop of `fpx_preinit_modules` has one local for all of its rounds. A module without a
callback is given what the local holds, which is what the last callback before it returned.
-/

namespace Floppix.Modules

open Pass Transition

variable {H C σ : Type} {s s' : Server H C σ} {m m' : Module H C σ} {ms : List (Module H C σ)}
  {cntx cntx' : Option C} {rest rest' : σ} {c : C}

/-- The modules that a call of `fpx_preinit_modules` gives a context: those in front of the
first that has one already or whose callback returns `NULL`. -/
def served : List (Module H C σ) → σ → List (Module H C σ)
  | [], _ => []
  | m :: ms, rest =>
      if m.preinited then []
      else
        match m.preinit with
        | none => m :: served ms rest
        | some preinit =>
            match preinit rest with
            | (none, _) => []
            | (some _, rest) => m :: served ms rest

/-- No module without a callback stands behind one with a callback. -/
def CallbacksLast (ms : List (Module H C σ)) : Prop :=
  ms.Pairwise fun x y => y.preinit = none → x.preinit = none

/-- What a call may make of a module: a context that the module's own callback returned to
this call, none for a module that has no callback, and the one from before for a module that
the call does not get to. -/
structure OwnContext (m m' : Module H C σ) : Prop where
  without : m.preinited = false → m'.preinited = true → m.preinit = none → m'.cntx = none
  returned : m.preinited = false → m'.preinited = true → m.preinit ≠ none →
    ∃ c, m'.preinits = m.preinits ++ [some c] ∧ m'.cntx = some c
  kept : m'.preinited = m.preinited → m'.cntx = m.cntx

/-! ## One module -/

theorem OwnContext.refl (m : Module H C σ) : OwnContext m m where
  without hf ht := by simp [hf] at ht
  returned hf ht := by simp [hf] at ht
  kept _ := rfl

theorem preinitModule_without (hnone : m.preinit = none) :
    preinitModule cntx m rest = .ok (cntx, { m with cntx := cntx, preinited := true }, rest) := by
  simp only [preinitModule, hnone]

theorem preinitModule_null {preinit : σ → Option C × σ} (hsome : m.preinit = some preinit)
    (hnull : preinit rest = (none, rest')) :
    preinitModule cntx m rest =
      .error (Err.failed, { m with preinits := m.preinits ++ [none] }, rest') := by
  simp only [preinitModule, hsome, hnull]

theorem preinitModule_returned {preinit : σ → Option C × σ} (hsome : m.preinit = some preinit)
    (hc : preinit rest = (some c, rest')) :
    preinitModule cntx m rest = .ok (some c, { m with
      cntx := some c
      preinited := true
      preinits := m.preinits ++ [some c] }, rest') := by
  simp only [preinitModule, hsome, hc]

/-- A module without a callback has its own context when the local holds `NULL`. -/
theorem ownContext_without_iff (hflag : m.preinited = false) (hnone : m.preinit = none) :
    OwnContext m { m with cntx := cntx, preinited := true } ↔ cntx = none := by
  constructor
  · exact fun h => h.without hflag rfl hnone
  · intro h
    exact ⟨fun _ _ _ => h, fun _ _ hsome => absurd hnone hsome, fun hsame => by
      simp [hflag] at hsame⟩

theorem ownContext_returned (hflag : m.preinited = false) (hsome : m.preinit ≠ none) :
    OwnContext m { m with
      cntx := some c
      preinited := true
      preinits := m.preinits ++ [some c] } where
  without _ _ hnone := absurd hnone hsome
  returned _ _ _ := ⟨c, rfl, rfl⟩
  kept hsame := by simp [hflag] at hsame

theorem ownContext_null (hflag : m.preinited = false) :
    OwnContext m { m with preinits := m.preinits ++ [none] } where
  without _ ht := by simp [hflag] at ht
  returned _ ht := by simp [hflag] at ht
  kept _ := rfl

/-! ## One call -/

/-- The rounds from here on give every module its own context exactly when modules without
callbacks stand in front, and none is left once the local holds a context. -/
theorem pass_own_iff (cntx : Option C) (ms : List (Module H C σ)) (rest : σ) :
    List.Forall₂ OwnContext ms (pass Module.preinited preinitModule cntx ms rest).2.1 ↔
      CallbacksLast (served ms rest) ∧
        (cntx ≠ none → ∀ m ∈ served ms rest, m.preinit ≠ none) := by
  have hall : ∀ ms : List (Module H C σ), List.Forall₂ OwnContext ms ms := fun ms =>
    List.forall₂_same.mpr fun m _ => OwnContext.refl m
  induction ms generalizing cntx rest with
  | nil => exact iff_of_true .nil ⟨.nil, fun _ _ hm => (nomatch hm)⟩
  | cons m ms ih =>
      cases hflag : m.preinited with
      | true =>
          rw [pass_flagged hflag]
          exact iff_of_true (hall _) (by simp [served, hflag, CallbacksLast])
      | false =>
          cases hpre : m.preinit with
          | none =>
              have hserved : served (m :: ms) rest = m :: served ms rest := by
                simp [served, hflag, hpre]
              rw [pass_succeeded hflag (preinitModule_without hpre), hserved, List.forall₂_cons]
              apply (and_congr (ownContext_without_iff hflag hpre) (ih cntx rest)).trans
              rw [CallbacksLast, CallbacksLast, List.pairwise_cons, List.forall_mem_cons]
              constructor
              · rintro ⟨rfl, hlast, -⟩
                exact ⟨⟨fun _ _ _ => hpre, hlast⟩, fun h => absurd rfl h⟩
              · rintro ⟨⟨-, hlast⟩, hheld⟩
                have hnull : cntx = none := by
                  by_contra h
                  exact (hheld h).1 hpre
                exact ⟨hnull, hlast, fun h => absurd hnull h⟩
          | some preinit =>
              have hsome : m.preinit ≠ none := by simp [hpre]
              cases hres : preinit rest with
              | mk returned rest' =>
                  cases returned with
                  | none =>
                      rw [pass_failed hflag (preinitModule_null hpre hres)]
                      have hserved : served (m :: ms) rest = [] := by
                        simp [served, hflag, hpre, hres]
                      rw [hserved, List.forall₂_cons]
                      exact iff_of_true ⟨ownContext_null hflag, hall ms⟩
                        ⟨List.Pairwise.nil, fun _ _ hm => (nomatch hm)⟩
                  | some c =>
                      have hserved : served (m :: ms) rest = m :: served ms rest' := by
                        simp [served, hflag, hpre, hres]
                      rw [pass_succeeded hflag (preinitModule_returned hpre hres), hserved,
                        List.forall₂_cons]
                      apply (and_congr_right' (ih (some c) rest')).trans
                      rw [CallbacksLast, CallbacksLast, List.pairwise_cons, List.forall_mem_cons]
                      constructor
                      · rintro ⟨-, hlast, hheld⟩
                        have hrest := hheld (by simp)
                        exact ⟨⟨fun y hy hnone => absurd hnone (hrest y hy), hlast⟩,
                          fun _ => ⟨hsome, hrest⟩⟩
                      · rintro ⟨⟨hbehind, hlast⟩, -⟩
                        exact ⟨ownContext_returned hflag hsome, hlast,
                          fun _ y hy hnone => hsome (hbehind y hy hnone)⟩

/-- A call that returns `FPX_OK` serves all modules in front of the first that is
pre-initialised. -/
theorem served_of_ok (h : (preinitModules s).1 = Err.ok) :
    served s.modules s.rest = s.modules.takeWhile fun m => !m.preinited := by
  replace h := preinit_status h
  obtain ⟨modules, rest⟩ := s
  simp only at h ⊢
  generalize (none : Option C) = cntx at h
  induction modules generalizing cntx rest with
  | nil => rfl
  | cons m ms ih =>
      cases hflag : m.preinited with
      | true => simp [served, hflag]
      | false =>
          cases hpre : m.preinit with
          | none =>
              rw [pass_succeeded hflag (preinitModule_without hpre)] at h
              simp [served, hflag, hpre, ih _ _ h]
          | some preinit =>
              cases hres : preinit rest with
              | mk returned rest' =>
                  cases returned with
                  | none =>
                      rw [pass_failed hflag (preinitModule_null hpre hres)] at h
                      cases h
                  | some c =>
                      rw [pass_succeeded hflag (preinitModule_returned hpre hres)] at h
                      simp [served, hflag, hpre, hres, ih _ _ h]

/-! ## Every call of a run -/

/-- The context of the module is what the last call of its own callback returned, and `NULL`
where there was none. -/
def Module.Own (m : Module H C σ) : Prop := m.cntx = m.preinits.getLast?.join

theorem own_load (d : Declaration H C σ) : (d.load : Module H C σ).Own := rfl

theorem own_attempted_iff (h : Attempted Module.preinited preinitModule m m') (hm : PreinitOk m)
    (hown : m.Own) : OwnContext m m' ↔ m'.Own := by
  cases h with
  | untouched => exact iff_of_true (.refl m) hown
  | failed hflag h =>
      obtain ⟨-, -, rfl⟩ := preinitModule_error h
      apply iff_of_true (ownContext_null hflag)
      obtain ⟨n, hn⟩ := hm.waiting hflag
      have hnull : m.cntx = none := by
        rw [hown, hn, List.getLast?_replicate]
        split <;> rfl
      simp [Module.Own, hnull]
  | succeeded hflag h =>
      rcases preinitModule_ok h with ⟨hnone, rfl⟩ | ⟨c, hsome, rfl⟩
      · rw [ownContext_without_iff hflag hnone]
        simp [Module.Own, hm.without hnone]
      · exact iff_of_true (ownContext_returned hflag hsome) (by simp [Module.Own])

/-- A relation that holds of every item of a list with what became of it. -/
theorem forall₂_iff_of_attempted {M : Type} {A R : M → M → Prop} {Q T : M → Prop} {ms ms' : List M}
    (h : List.Forall₂ A ms ms') (hQ : ∀ m ∈ ms, Q m)
    (hiff : ∀ m m', A m m' → Q m → (R m m' ↔ T m')) :
    List.Forall₂ R ms ms' ↔ ∀ m' ∈ ms', T m' := by
  induction h with
  | nil => simp
  | cons hA _ ih =>
      obtain ⟨hm, hms⟩ := List.forall_mem_cons.mp hQ
      rw [List.forall₂_cons, List.forall_mem_cons, hiff _ _ hA hm, ih hms]

def Ordered (s : Server H C σ) : Action H C σ → Prop
  | .plug _ => True
  | .preinit => CallbacksLast (served s.modules s.rest)

theorem ordered_iff (hs : Plugged s) (hown : ∀ m ∈ s.modules, m.Own) (a : Action H C σ) :
    Ordered s a ↔ ∀ s', step s a = some s' → Plugged s' ∧ ∀ m ∈ s'.modules, m.Own := by
  cases a with
  | plug d =>
      refine iff_of_true trivial fun s' h => ⟨plugged_step h hs, ?_⟩
      simp only [step] at h
      split at h
      · rename_i herr
        cases h
        have hadd := addModule_ok (s := s) (m := d.load) (Prod.ext herr rfl)
        have hall : ∀ m ∈ s.modules ++ [d.load], m.Own :=
          List.forall_mem_append.mpr ⟨hown, List.forall_mem_singleton.mpr (own_load d)⟩
        exact (congrArg (fun s => ∀ m ∈ s.modules, Module.Own m) hadd).mpr hall
      · cases h
  | preinit =>
      have hpass : List.Forall₂ OwnContext s.modules (preinitModules s).2.modules ↔
          ∀ m ∈ (preinitModules s).2.modules, m.Own :=
        forall₂_iff_of_attempted (preinitModules_forall₂ s)
          (fun m hm => And.intro (hs.calls m hm) (hown m hm))
          fun _ _ hA hm => own_attempted_iff hA hm.1 hm.2
      have hcall := (pass_own_iff none s.modules s.rest).symm.trans hpass
      constructor
      · intro h s' hstep
        cases hstep
        exact ⟨hs.preinit, hcall.mp ⟨h, fun hne => absurd rfl hne⟩⟩
      · exact fun h => (hcall.mpr (h _ rfl).2).1

/-- A call of `fpx_preinit_modules` that returns `FPX_OK` gives each module that it goes
through the context that is its own, whatever the list is, exactly when no module without a
callback stands behind one with a callback in front of the first that was pre-initialised
before. In every state of a run all modules have their own contexts exactly when all calls
are so. -/
theorem contexts_own_iff :
    (∀ s : Server H C σ, (preinitModules s).1 = Err.ok →
      (List.Forall₂ OwnContext s.modules (preinitModules s).2.modules ↔
        CallbacksLast (s.modules.takeWhile fun m => !m.preinited))) ∧
    ∀ (rest : σ) (as : List (Action H C σ)),
      Visits step (fun s => ∀ m ∈ s.modules, m.Own) ⟨[], rest⟩ as ↔
        Meets step Ordered ⟨[], rest⟩ as := by
  constructor
  · intro s hok
    rw [← served_of_ok hok]
    apply (pass_own_iff none s.modules s.rest).trans
    exact and_iff_left fun hne => absurd rfl hne
  · intro rest as
    have hstart : Plugged (⟨[], rest⟩ : Server H C σ) ∧
        ∀ m ∈ (⟨[], rest⟩ : Server H C σ).modules, m.Own :=
      ⟨plugged_start rest, fun m hm => (nomatch hm)⟩
    rw [← visits_iff_meets (fun s a hs => ordered_iff hs.1 hs.2 a) as hstart]
    have hplugged : Visits step Plugged (⟨[], rest⟩ : Server H C σ) as :=
      visits_of_invariant (fun _ _ _ hstep hs => plugged_step hstep hs) as (plugged_start rest)
    exact ⟨fun h => hplugged.and h, fun h => h.mono fun _ hs => hs.2⟩

/-- A module that has directives and no callback. -/
def tableModule : Declaration Unit Nat Unit where
  name := ascii "table"
  cmd := [⟨ascii "table", 0x2, ()⟩]
  preinit := none
  init := none

/-- Behind the core module a module without a callback is given the context of the core
module, and so are the handlers of its directives. -/
theorem context_of_another :
    ∃ s, run step (⟨[], ()⟩ : Server Unit Nat Unit)
        [.plug (quietModule "core"), .plug tableModule] = some s ∧
      (preinitModules s).1 = Err.ok ∧
      (∃ m ∈ (preinitModules s).2.modules, m.preinit = none ∧ m.preinits = [] ∧
        m.cntx = some 7) ∧
      Configuration.findModuleByCommand ((preinitModules s).2.modules.map Module.table)
        (ascii "table") = some ⟨tableModule.cmd, some 7⟩ ∧
      ¬ List.Forall₂ OwnContext s.modules (preinitModules s).2.modules := by
  refine ⟨_, rfl, rfl, ⟨_, List.mem_cons_of_mem _ (List.mem_singleton_self _), rfl, rfl, rfl⟩,
    rfl, ?_⟩
  intro h
  cases h with
  | cons _ h =>
      cases h with
      | cons h _ => exact absurd (h.without rfl rfl rfl) (by decide)

end Floppix.Modules
