import Floppix.Core.Module
import Floppix.Lib.Transition

/-! # The initialisation of the modules

`fpx_init_modules` keeps the status of the last callback in a local that it reads for
every module, with a callback or without. Nothing has been assigned to it before the
first callback. A module behind one that is initialised is not looked at.
-/

namespace Floppix.Modules

open Pass Transition

variable {H C σ : Type}

/-- One call of `fpx_init_modules` after the other, each with the value its local happens
to have. -/
def retry (s : Server H C σ) (junk : Err) : Option (Server H C σ) := some (initModules junk s).2

/-- `fpx_init_modules` as it would be with a status for each module. -/
def initModulesOwn (s : Server H C σ) : Err × Server H C σ :=
  let (status, modules, rest) :=
    Pass.pass Module.inited (fun _ => initModule Err.ok) Err.ok s.modules s.rest
  (status.getD Err.ok, ⟨modules, rest⟩)

/-- The module is initialised, and its callback, if any, has succeeded once, with the
context of the module. -/
structure Module.InitDone (m : Module H C σ) : Prop where
  inited : m.inited = true
  once : m.init ≠ none → m.inits.filter (fun call => call.2 = Err.ok) = [(m.cntx, Err.ok)]

/-- The next call is complete when it returns `FPX_OK`, and what it does is up to the
modules' own statuses. -/
structure Honest (s : Server H C σ) : Prop where
  complete : ∀ junk, (initModules junk s).1 = Err.ok →
    ∀ m ∈ (initModules junk s).2.modules, m.InitDone
  own : ∀ junk, initModules junk s = initModulesOwn s

/-! ## What the calls leave -/

structure InitOk (m : Module H C σ) : Prop where
  waiting : m.inited = false → ∀ call ∈ m.inits, call.2 ≠ Err.ok
  done : m.inited = true → m.init ≠ none →
    m.inits.filter (fun call => call.2 = Err.ok) = [(m.cntx, Err.ok)]

theorem InitOk.filter_waiting {m : Module H C σ} (h : InitOk m) (hflag : m.inited = false) :
    m.inits.filter (fun call => call.2 = Err.ok) = [] := by
  rw [List.filter_eq_nil_iff]
  intro call hcall
  simpa using h.waiting hflag call hcall

theorem initOk_attempted {m m' : Module H C σ} (h : Attempted Module.inited initModule m m')
    (hm : InitOk m) : InitOk m' := by
  cases h with
  | untouched => exact hm
  | failed hflag h =>
      obtain ⟨-, rfl | ⟨e, -, he, rfl⟩⟩ := initModule_error h
      · exact hm
      · refine ⟨fun _ => ?_, fun hdone => ?_⟩
        · exact List.forall_mem_append.mpr ⟨hm.waiting hflag, List.forall_mem_singleton.mpr he⟩
        · rw [hflag] at hdone
          cases hdone
  | succeeded hflag h =>
      obtain ⟨-, ⟨hnone, -, rfl⟩ | ⟨-, rfl⟩⟩ := initModule_ok h
      · exact ⟨fun hf => (nomatch hf), fun _ hsome => absurd hnone hsome⟩
      · refine ⟨fun hf => (nomatch hf), fun _ _ => ?_⟩
        simp [List.filter_append, hm.filter_waiting hflag]

theorem init_sets : Sets (M := Module H C σ) Module.inited initModule where
  succeeded := by
    intro a m s a' m' s' h
    obtain ⟨-, ⟨-, -, rfl⟩ | ⟨-, rfl⟩⟩ := initModule_ok h <;> rfl
  failed := by
    intro a m s e m' s' hflag h
    obtain ⟨-, rfl | ⟨e, -, -, rfl⟩⟩ := initModule_error h <;> exact hflag

structure Tried (s : Server H C σ) : Prop where
  calls : ∀ m ∈ s.modules, InitOk m
  flagsFirst : FlagsFirst Module.inited s.modules

theorem initModules_eq (junk : Err) (s : Server H C σ) :
    initModules junk s =
      ((pass Module.inited initModule junk s.modules s.rest).1.getD Err.ok,
        ⟨(pass Module.inited initModule junk s.modules s.rest).2.1,
          (pass Module.inited initModule junk s.modules s.rest).2.2⟩) := rfl

theorem tried_step {s s' : Server H C σ} {junk : Err} (h : retry s junk = some s')
    (hs : Tried s) : Tried s' := by
  cases h
  exact ⟨pass_forall (fun _ _ => initOk_attempted) hs.calls,
    pass_flagsFirst init_sets hs.flagsFirst⟩

theorem tried_start {s : Server H C σ} (h : ∀ m ∈ s.modules, m.inited = false ∧ m.inits = []) :
    Tried s where
  calls := by
    intro m hm
    refine ⟨fun _ call hcall => ?_, fun hdone => ?_⟩
    · rw [(h m hm).2] at hcall
      cases hcall
    · rw [(h m hm).1] at hdone
      cases hdone
  flagsFirst := flagsFirst_of_fresh fun m hm => (h m hm).1

theorem init_status {s : Server H C σ} {junk : Err} (h : (initModules junk s).1 = Err.ok) :
    (pass Module.inited initModule junk s.modules s.rest).1 = none := by
  rw [initModules_eq] at h
  cases hstatus : (pass Module.inited initModule junk s.modules s.rest).1 with
  | none => rfl
  | some e =>
      obtain ⟨m, -, a, r, m', r', herror⟩ := pass_some hstatus
      obtain ⟨rfl, -⟩ := initModule_error herror
      rw [hstatus] at h
      exact absurd h Err.failed_ne_ok

/-! ## Completeness -/

/-- `FPX_OK` means that all modules are initialised exactly when no call has stopped
behind one that is. -/
theorem init_complete_iff {s : Server H C σ} (hs : Tried s) :
    (∀ junk, (initModules junk s).1 = Err.ok →
        ∀ m ∈ (initModules junk s).2.modules, m.InitDone) ↔
      ¬ Mixed Module.inited s.modules := by
  constructor
  · intro hall hmixed
    obtain ⟨m, hm, hflag⟩ := hmixed.2
    have hdone := hall Err.ok
    rw [initModules_eq, pass_mixed hs.flagsFirst hmixed] at hdone
    have := (hdone rfl m hm).inited
    rw [hflag] at this
    cases this
  · intro hmixed junk hok
    rcases done_or_fresh hmixed with hdone | hfresh
    · rw [initModules_eq, pass_done hdone]
      exact fun m hm => ⟨hdone m hm, (hs.calls m hm).done (hdone m hm)⟩
    · intro m' hm'
      obtain ⟨m, hm, a, r, a', r', h⟩ := pass_fresh hfresh (init_status hok) m' hm'
      have hok' := initOk_attempted (.succeeded (hfresh m hm) h) (hs.calls m hm)
      exact ⟨init_sets.succeeded h, hok'.done (init_sets.succeeded h)⟩

/-! ## The status of another module -/

theorem initModule_own {m : Module H C σ} (h : m.init ≠ none) (junk err : Err) (r : σ) :
    initModule junk m r = initModule err m r := by
  unfold initModule
  cases hi : m.init with
  | none => exact absurd hi h
  | some init => rfl

/-- What a call does is up to the modules' own statuses exactly when the first module that
it looks at has a callback. -/
theorem init_own_iff (s : Server H C σ) :
    (∀ junk, initModules junk s = initModulesOwn s) ↔
      ∀ m, s.modules.head? = some m → m.inited = false → m.init ≠ none := by
  obtain ⟨modules, rest⟩ := s
  cases modules with
  | nil => exact iff_of_true (fun _ => rfl) (fun m hm => (nomatch hm))
  | cons m ms =>
      cases hflag : m.inited with
      | true =>
          refine iff_of_true (fun junk => ?_) (fun m' hm' hf => ?_)
          · simp only [initModules, initModulesOwn, pass_flagged hflag]
          · cases hm'
            rw [hflag] at hf
            cases hf
      | false =>
          by_cases hi : m.init = none
          · -- with another value the local fails the module
            refine iff_of_false (fun hall => ?_) (fun hall => hall m rfl hflag hi)
            have hjunk : initModule Err.failed m rest = .error (Err.failed, m, rest) := by
              simp [initModule, hi, Err.failed_ne_ok]
            have hown : initModule Err.ok m rest =
                .ok (Err.ok, { m with inited := true }, rest) := by
              simp [initModule, hi]
            have hsame := hall Err.failed
            have hpass :
                pass Module.inited (fun _ => initModule Err.ok) Err.ok (m :: ms) rest = _ :=
              pass_succeeded hflag hown
            simp only [initModules, initModulesOwn, pass_failed hflag hjunk, hpass] at hsame
            have hmodules := congrArg (fun out => out.2.modules.head?.map Module.inited) hsame
            simp [hflag] at hmodules
          · refine iff_of_true (fun junk => ?_) (fun m' hm' _ => ?_)
            · have hfirst : pass Module.inited initModule junk (m :: ms) rest =
                  pass Module.inited initModule Err.ok (m :: ms) rest := by
                simp only [Pass.pass, initModule_own hi junk Err.ok]
              have hrest : pass Module.inited initModule Err.ok (m :: ms) rest =
                  pass Module.inited (fun _ => initModule Err.ok) Err.ok (m :: ms) rest := by
                have hkeep {err err' : Err} {x x' : Module H C σ} {r r' : σ} (_ : Err.ok = err)
                    (h : initModule err x r = .ok (err', x', r')) : Err.ok = err' :=
                  (initModule_ok h).1.symm
                apply pass_congr rfl hkeep
                rintro err x r rfl
                rfl
              simp only [initModules, initModulesOwn, hfirst, hrest]
            · cases hm'
              exact hi

/-- After any number of calls on a list of modules, the next call of `fpx_init_modules` is
complete and honest exactly when the modules are all initialised or none is, and the first
of them has a callback or is initialised. -/
theorem init_honest_iff {s₀ s : Server H C σ} {junks : List Err}
    (h₀ : ∀ m ∈ s₀.modules, m.inited = false ∧ m.inits = [])
    (hrun : run retry s₀ junks = some s) :
    Honest s ↔ ¬ Mixed Module.inited s.modules ∧
      ∀ m, s.modules.head? = some m → m.inited = false → m.init ≠ none := by
  have hs : Tried s := run_invariant (fun _ _ _ hstep htried => tried_step hstep htried) hrun
    (tried_start h₀)
  rw [← init_complete_iff hs, ← init_own_iff s]
  exact ⟨fun h => ⟨h.complete, h.own⟩, fun h => ⟨h.1, h.2⟩⟩

def initialisedWith (err : Err) : Module Unit Nat Unit :=
  Declaration.load ⟨ascii "core", [], none, some fun _ r => (err, r)⟩

def callbackless : Module Unit Nat Unit := Declaration.load ⟨ascii "table", [], none, none⟩

theorem init_honest_two : Honest (⟨[initialisedWith Err.ok, callbackless], ()⟩ :
    Server Unit Nat Unit) := by
  have hfresh : ∀ m ∈ [initialisedWith Err.ok, callbackless], m.inited = false ∧ m.inits = [] := by
    simp [initialisedWith, callbackless, Declaration.load]
  have hiff := @init_honest_iff Unit Nat Unit ⟨[initialisedWith Err.ok, callbackless], ()⟩
    ⟨[initialisedWith Err.ok, callbackless], ()⟩ [] hfresh rfl
  refine hiff.mpr ⟨?_, ?_⟩
  · rintro ⟨⟨m, hm, hflag⟩, -⟩
    rw [(hfresh m hm).1] at hflag
    cases hflag
  · intro m hm _
    cases hm
    exact fun hnone => nomatch hnone

/-- After a failure of the second module the next call returns `FPX_OK` without it; and
with a first module that has no callback the status is the value of the local. -/
theorem init_skips_failed :
    (∃ s, run retry (⟨[initialisedWith Err.ok, initialisedWith Err.failed], ()⟩ :
        Server Unit Nat Unit) [Err.ok] = some s ∧ (initModules Err.ok s).1 = Err.ok ∧
      ∃ m ∈ (initModules Err.ok s).2.modules, m.inited = false) ∧
    (initModules Err.ok (⟨[callbackless], ()⟩ : Server Unit Nat Unit)).1 ≠
      (initModules Err.failed (⟨[callbackless], ()⟩ : Server Unit Nat Unit)).1 := by
  refine ⟨⟨_, rfl, rfl, _, List.mem_cons_of_mem _ (List.mem_singleton_self _), rfl⟩, ?_⟩
  decide

end Floppix.Modules
