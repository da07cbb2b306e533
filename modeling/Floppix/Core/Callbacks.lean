import Floppix.Core.Module
import Floppix.Lib.Transition

/-! # Which callbacks have been called

A pass ends at the first module that has been through its callback. As modules are
plugged behind the others, that leaves out whatever stands behind a module that is
done: a module imported later, and every module behind one whose callback failed.
-/

namespace Floppix.Modules

open Pass Transition

variable {H C σ : Type}

/-! ## Before the configuration: preinit -/

inductive Action (H C σ : Type) where
  /-- a successful `fpx_add_module` or `fpx_load_module` -/
  | plug (d : Declaration H C σ)
  /-- `fpx_preinit_modules` -/
  | preinit

def step (s : Server H C σ) : Action H C σ → Option (Server H C σ)
  | .plug d =>
      let (err, s) := addModule s d.load
      if err = Err.ok then some s else none
  | .preinit => some (preinitModules s).2

/-- The callback, if any, has been called once, and the module has the context that it
returned. -/
structure Module.PreinitDone (m : Module H C σ) : Prop where
  preinited : m.preinited = true
  once : m.preinit ≠ none → ∃ c, m.preinits = [some c] ∧ m.cntx = some c

/-- What the calls so far say about one module. -/
structure PreinitOk (m : Module H C σ) : Prop where
  without : m.preinit = none → m.preinits = []
  waiting : m.preinited = false → ∃ n, m.preinits = List.replicate n none
  done : m.preinited = true → m.preinit ≠ none →
    ∃ n c, m.preinits = List.replicate n none ++ [some c] ∧ m.cntx = some c

theorem preinitOk_attempted {m m' : Module H C σ}
    (h : Attempted Module.preinited preinitModule m m') (hm : PreinitOk m) : PreinitOk m' := by
  cases h with
  | untouched => exact hm
  | failed hflag h =>
      obtain ⟨-, hsome, rfl⟩ := preinitModule_error h
      obtain ⟨n, hn⟩ := hm.waiting hflag
      refine ⟨fun hnone => absurd hnone hsome, fun _ => ⟨n + 1, ?_⟩, fun hdone => ?_⟩
      · simp only [hn, List.replicate_succ']
      · rw [hflag] at hdone
        cases hdone
  | succeeded hflag h =>
      rcases preinitModule_ok h with ⟨hnone, rfl⟩ | ⟨c, hsome, rfl⟩
      · exact ⟨hm.without, fun hf => (nomatch hf), fun _ hsome => absurd hnone hsome⟩
      · obtain ⟨n, hn⟩ := hm.waiting hflag
        refine ⟨fun hnone => absurd hnone hsome, fun hf => (nomatch hf), fun _ _ => ?_⟩
        exact ⟨n, c, by simp only [hn], rfl⟩

theorem preinit_sets : Sets (M := Module H C σ) Module.preinited preinitModule where
  succeeded := by
    intro a m s a' m' s' h
    rcases preinitModule_ok h with ⟨-, rfl⟩ | ⟨c, -, rfl⟩ <;> rfl
  failed := by
    intro a m s e m' s' hflag h
    obtain ⟨-, -, rfl⟩ := preinitModule_error h
    exact hflag

structure Plugged (s : Server H C σ) : Prop where
  calls : ∀ m ∈ s.modules, PreinitOk m
  flagsFirst : FlagsFirst Module.preinited s.modules

theorem preinitModules_eq (s : Server H C σ) :
    preinitModules s =
      ((pass Module.preinited preinitModule none s.modules s.rest).1.getD Err.ok,
        ⟨(pass Module.preinited preinitModule none s.modules s.rest).2.1,
          (pass Module.preinited preinitModule none s.modules s.rest).2.2⟩) := rfl

theorem preinitModules_forall₂ (s : Server H C σ) :
    List.Forall₂ (Attempted Module.preinited preinitModule) s.modules
      (preinitModules s).2.modules := pass_forall₂ none s.modules s.rest

theorem addModule_ok {s s' : Server H C σ} {m : Module H C σ}
    (h : addModule s m = (Err.ok, s')) : s' = { s with modules := s.modules ++ [m] } := by
  unfold addModule at h
  split at h
  · exact absurd (Prod.ext_iff.mp h).1 Err.failed_ne_ok
  · exact (Prod.ext_iff.mp h).2.symm

theorem Plugged.add {s : Server H C σ} (hs : Plugged s) (d : Declaration H C σ) :
    Plugged { s with modules := s.modules ++ [d.load] } where
  calls := by
    refine List.forall_mem_append.mpr ⟨hs.calls, List.forall_mem_singleton.mpr ?_⟩
    exact ⟨fun _ => rfl, fun _ => ⟨0, rfl⟩, fun hdone => (nomatch hdone)⟩
  flagsFirst := by
    refine List.pairwise_append.mpr ⟨hs.flagsFirst, List.pairwise_singleton _ _, ?_⟩
    intro x _ y hy hf
    cases List.mem_singleton.mp hy
    cases hf

theorem Plugged.preinit {s : Server H C σ} (hs : Plugged s) : Plugged (preinitModules s).2 where
  calls := pass_forall (fun _ _ => preinitOk_attempted) hs.calls
  flagsFirst := pass_flagsFirst preinit_sets hs.flagsFirst

theorem plugged_step {s s' : Server H C σ} {a : Action H C σ} (h : step s a = some s')
    (hs : Plugged s) : Plugged s' := by
  cases a with
  | plug d =>
      simp only [step] at h
      split at h
      · rename_i herr
        cases h
        have hadd := addModule_ok (s := s) (m := d.load) (Prod.ext herr rfl)
        exact (congrArg Plugged hadd).mpr (hs.add d)
      · cases h
  | preinit =>
      cases h
      exact hs.preinit

theorem plugged_start (rest : σ) : Plugged (⟨[], rest⟩ : Server H C σ) :=
  ⟨by simp, List.Pairwise.nil⟩

def Failed (s : Server H C σ) : Prop := ∃ m ∈ s.modules, none ∈ m.preinits

theorem preinits_grow {m m' : Module H C σ}
    (h : Attempted Module.preinited preinitModule m m') : m.preinits <+: m'.preinits := by
  cases h with
  | untouched => exact List.prefix_rfl
  | failed hflag h =>
      obtain ⟨-, -, rfl⟩ := preinitModule_error h
      exact List.prefix_append ..
  | succeeded hflag h =>
      rcases preinitModule_ok h with ⟨-, rfl⟩ | ⟨c, -, rfl⟩
      · exact List.prefix_rfl
      · exact List.prefix_append ..

theorem PreinitOk.preinitDone {m : Module H C σ} (h : PreinitOk m) (hdone : m.preinited = true)
    (hno : none ∉ m.preinits) : m.PreinitDone := by
  refine ⟨hdone, fun hsome => ?_⟩
  obtain ⟨n, c, hn, hc⟩ := h.done hdone hsome
  cases n with
  | zero => exact ⟨c, hn, hc⟩
  | succ n => exact absurd (by simp [hn]) hno

theorem Module.PreinitDone.not_failed {m : Module H C σ} (h : m.PreinitDone) (hm : PreinitOk m) :
    none ∉ m.preinits := by
  intro hnone
  have hsome : m.preinit ≠ none := fun h0 => by simp [hm.without h0] at hnone
  obtain ⟨c, hc, -⟩ := h.once hsome
  simp [hc] at hnone

/-- Without a failure before, a pass that succeeds with a module has called it once. -/
theorem preinitDone_of_succeeded {a a' : Option C} {m m' : Module H C σ} {r r' : σ}
    (hm : PreinitOk m) (hflag : m.preinited = false) (hno : none ∉ m.preinits)
    (h : preinitModule a m r = .ok (a', m', r')) : m'.PreinitDone := by
  apply (preinitOk_attempted (.succeeded hflag h) hm).preinitDone (preinit_sets.succeeded h)
  rcases preinitModule_ok h with ⟨-, rfl⟩ | ⟨c, -, rfl⟩
  · exact hno
  · simpa using hno

theorem preinit_status {s : Server H C σ} (h : (preinitModules s).1 = Err.ok) :
    (pass Module.preinited preinitModule none s.modules s.rest).1 = none := by
  rw [preinitModules_eq] at h
  cases hstatus : (pass Module.preinited preinitModule none s.modules s.rest).1 with
  | none => rfl
  | some e =>
      obtain ⟨m, -, a, r, m', r', herror⟩ := pass_some hstatus
      obtain ⟨rfl, -, -⟩ := preinitModule_error herror
      rw [hstatus] at h
      exact absurd h Err.failed_ne_ok

/-- When `fpx_preinit_modules` returns `FPX_OK`, every module has been through its
callback, once, exactly when all of them had before or none had, and no callback has
failed yet. -/
theorem preinitModules_done_iff {s : Server H C σ} (hs : Plugged s)
    (hok : (preinitModules s).1 = Err.ok) :
    (∀ m ∈ (preinitModules s).2.modules, m.PreinitDone) ↔
      ¬ Mixed Module.preinited s.modules ∧ ¬ Failed s := by
  constructor
  · intro hall
    constructor
    · intro hmixed
      obtain ⟨m, hm, hflag⟩ := hmixed.2
      rw [preinitModules_eq, pass_mixed hs.flagsFirst hmixed] at hall
      have := (hall m hm).preinited
      rw [hflag] at this
      cases this
    · rintro ⟨m, hm, hnone⟩
      obtain ⟨m', hm', hattempted⟩ := (exists_of_forall₂ (preinitModules_forall₂ s)).1 m hm
      exact (hall m' hm').not_failed (hs.preinit.calls m' hm')
        ((preinits_grow hattempted).subset hnone)
  · rintro ⟨hmixed, hfailed⟩
    have hno : ∀ m ∈ s.modules, none ∉ m.preinits := fun m hm h => hfailed ⟨m, hm, h⟩
    rcases done_or_fresh hmixed with hdone | hfresh
    · rw [preinitModules_eq, pass_done hdone]
      exact fun m hm => (hs.calls m hm).preinitDone (hdone m hm) (hno m hm)
    · intro m' hm'
      obtain ⟨m, hm, a, r, a', r', h⟩ := pass_fresh hfresh (preinit_status hok) m' hm'
      exact preinitDone_of_succeeded (hs.calls m hm) (hfresh m hm) (hno m hm) h

/-! ## Importing -/

theorem loadModule_ok {dso : Dso H C σ} {s s' : Server H C σ} {fname : Bytes}
    (h : loadModule dso s fname = .ok s') :
    ∃ d : Declaration H C σ, s' = { s with modules := s.modules ++ [d.load] } := by
  unfold loadModule at h
  split_ifs at h
  split at h
  · cases h
  · rename_i d _
    simp only at h
    split_ifs at h with herr
    cases h
    exact ⟨d, addModule_ok (Prod.ext (not_not.mp herr) rfl)⟩

theorem loadModule_error {dso : Dso H C σ} {s : Server H C σ} {fname : Bytes} {err : Err}
    (h : loadModule dso s fname = .error err) : err ≠ Err.ok := by
  unfold loadModule at h
  split_ifs at h with habs
  · cases h
    exact habs
  · cases h
    exact Err.failed_ne_ok
  · split at h
    · cases h
      exact Err.failed_ne_ok
    · simp only at h
      split_ifs at h with herr
      cases h
      exact herr

theorem cmd_attempted {m m' : Module H C σ}
    (h : Attempted Module.preinited preinitModule m m') : m'.cmd = m.cmd := by
  cases h with
  | untouched => rfl
  | failed hflag h =>
      obtain ⟨-, -, rfl⟩ := preinitModule_error h
      rfl
  | succeeded hflag h => rcases preinitModule_ok h with ⟨-, rfl⟩ | ⟨c, -, rfl⟩ <;> rfl

/-- The last item of a list keeps its place. -/
theorem forall₂_concat {M : Type} {R : M → M → Prop} {xs zs : List M} {y : M}
    (h : List.Forall₂ R (xs ++ [y]) zs) :
    ∃ xs' y', zs = xs' ++ [y'] ∧ List.Forall₂ R xs xs' ∧ R y y' := by
  induction xs generalizing zs with
  | nil =>
      cases h with
      | cons hy hnil =>
          cases hnil
          exact ⟨[], _, rfl, .nil, hy⟩
  | cons x xs ih =>
      cases h with
      | cons hx hrest =>
          obtain ⟨xs', y', rfl, hxs, hy⟩ := ih hrest
          exact ⟨_ :: xs', y', rfl, .cons hx hxs, hy⟩

theorem find_appended {ms : List (Configuration.Module H (Option C))}
    {m : Configuration.Module H (Option C)} {name : Bytes}
    (hno : Configuration.Undeclared ms name) (hm : m.Declares name) :
    Configuration.findModuleByCommand (ms ++ [m]) name = some m := by
  cases hf : m.cmd.find? fun cmd => cmd.name = name with
  | none => exact absurd hm (Configuration.not_declares_of_find? hf)
  | some cmd =>
      have howner : Configuration.Owner (ms ++ [m]) name m cmd :=
        ⟨⟨ms, [], rfl, hm, hno⟩, Configuration.find?_firstWith.mp hf⟩
      exact howner.find.2

theorem undeclared_attempted {ms ms' : List (Module H C σ)} {name : Bytes}
    (h : List.Forall₂ (Attempted Module.preinited preinitModule) ms ms')
    (hno : Configuration.Undeclared (ms.map Module.table) name) :
    Configuration.Undeclared (ms'.map Module.table) name := by
  intro t ht
  obtain ⟨m', hm', rfl⟩ := List.mem_map.mp ht
  obtain ⟨m, hm, hattempted⟩ := (exists_of_forall₂ h).2 m' hm'
  rintro ⟨cmd, hcmd, hname⟩
  refine hno m.table (List.mem_map_of_mem hm) ⟨cmd, ?_, hname⟩
  have hsame : m'.table.cmd = m.table.cmd := cmd_attempted hattempted
  rwa [← hsame]

/-- An import that succeeds leaves its module behind the others. Its callback has been
called exactly when no module had been through its own before; the context of the module
is what its handlers are given. -/
theorem handlerImport_done_iff {s s' : Server H C σ} (hs : Plugged s) {dso : Dso H C σ}
    {fname : Bytes} (h : handlerImport dso s fname = (Err.ok, s')) :
    ∃ front m, s'.modules = front ++ [m] ∧
      (m.PreinitDone ↔ ∀ other ∈ s.modules, other.preinited = false) ∧
      ∀ name, Configuration.Undeclared (s.modules.map Module.table) name →
        m.table.Declares name →
        Configuration.findModuleByCommand (s'.modules.map Module.table) name = some m.table := by
  unfold handlerImport at h
  cases hload : loadModule dso s fname with
  | error err =>
      rw [hload] at h
      exact absurd (Prod.ext_iff.mp h).1 (loadModule_error hload)
  | ok s₁ =>
      obtain ⟨d, rfl⟩ := loadModule_ok hload
      rw [hload] at h
      have hok := (Prod.ext_iff.mp h).1
      have hs' := (Prod.ext_iff.mp h).2
      simp only at hok hs'
      have hforall := preinitModules_forall₂ { s with modules := s.modules ++ [d.load] }
      have hmodules : (pass Module.preinited preinitModule none (s.modules ++ [d.load]) s.rest).2.1
          = s'.modules := congrArg Server.modules hs'
      rw [hs'] at hforall
      obtain ⟨front, m, heq, hfront, hm⟩ := forall₂_concat hforall
      refine ⟨front, m, heq, ⟨fun hdone => ?_, fun hfresh => ?_⟩, fun name hno hdeclares => ?_⟩
      · intro other hother
        by_contra hflag
        have hmixed : Mixed Module.preinited (s.modules ++ [d.load]) :=
          ⟨⟨other, List.mem_append_left _ hother, by simpa using hflag⟩,
            d.load, List.mem_append_right _ (List.mem_singleton_self _), rfl⟩
        rw [pass_mixed (hs.add d).flagsFirst hmixed, heq] at hmodules
        have hlast : m = d.load := by
          have := (List.append_inj' hmodules rfl).2
          exact (List.singleton_inj.mp this).symm
        have hflag' := hdone.preinited
        rw [hlast] at hflag'
        cases hflag'
      · have hall : ∀ x ∈ s.modules ++ [d.load], x.preinited = false :=
          List.forall_mem_append.mpr ⟨hfresh, List.forall_mem_singleton.mpr rfl⟩
        have hend := preinit_status hok
        have hdone : m.preinited = true := by
          obtain ⟨x, -, a, r, a', r', hx⟩ := pass_fresh hall hend m (by
            rw [hmodules, heq]
            exact List.mem_append_right _ (List.mem_singleton_self _))
          exact preinit_sets.succeeded hx
        have hload : PreinitOk d.load :=
          (hs.add d).calls d.load (List.mem_append_right _ (List.mem_singleton_self _))
        cases hm with
        | untouched => cases hdone
        | failed hflag herror =>
            rw [preinit_sets.failed hflag herror] at hdone
            cases hdone
        | succeeded hflag hsucceeded =>
            exact preinitDone_of_succeeded hload hflag (by simp [Declaration.load]) hsucceeded
      · rw [heq, List.map_append]
        exact find_appended (undeclared_attempted hfront hno) hdeclares

/-- In every server that modules have been plugged into and `fpx_preinit_modules` been run
on, in any order: when the function returns `FPX_OK`, every module has been through its
callback once exactly when all of them had before or none had, and no callback has failed
yet; and when an import succeeds, its module has been exactly when no module had before. -/
theorem preinit_complete_iff {rest : σ} {as : List (Action H C σ)} {s : Server H C σ}
    (hrun : run step ⟨[], rest⟩ as = some s) :
    ((preinitModules s).1 = Err.ok →
      ((∀ m ∈ (preinitModules s).2.modules, m.PreinitDone) ↔
        ¬ Mixed Module.preinited s.modules ∧ ¬ Failed s)) ∧
    ∀ (dso : Dso H C σ) (fname : Bytes) (s' : Server H C σ),
      handlerImport dso s fname = (Err.ok, s') →
      ∃ front m, s'.modules = front ++ [m] ∧
        (m.PreinitDone ↔ ∀ other ∈ s.modules, other.preinited = false) ∧
        ∀ name, Configuration.Undeclared (s.modules.map Module.table) name →
          m.table.Declares name →
          Configuration.findModuleByCommand (s'.modules.map Module.table) name = some m.table := by
  have hs : Plugged s :=
    run_invariant (fun _ _ _ hstep hplugged => plugged_step hstep hplugged) hrun
      (plugged_start rest)
  exact ⟨preinitModules_done_iff hs, fun dso fname s' h => handlerImport_done_iff hs h⟩

def quietModule (name : String) : Declaration Unit Nat Unit where
  name := ascii name
  cmd := [⟨ascii name, 0x2, ()⟩]
  preinit := some fun r => (some 7, r)
  init := some fun _ r => (Err.ok, r)

/-- Two modules, and then the pass. -/
theorem preinit_complete_two :
    ∃ s, run step (⟨[], ()⟩ : Server Unit Nat Unit)
        [.plug (quietModule "core"), .plug (quietModule "proxy")] = some s ∧
      ∀ m ∈ (preinitModules s).2.modules, m.PreinitDone := by
  have hiff := @preinit_complete_iff Unit Nat Unit ()
    [.plug (quietModule "core"), .plug (quietModule "proxy")] _ rfl
  refine ⟨_, rfl, (hiff.1 rfl).mpr ⟨?_, ?_⟩⟩
  · rintro ⟨⟨m, hm, hflag⟩, -⟩
    rcases List.mem_cons.mp hm with rfl | hm
    · cases hflag
    · cases List.mem_singleton.mp hm
      cases hflag
  · rintro ⟨m, hm, hnone⟩
    rcases List.mem_cons.mp hm with rfl | hm
    · cases hnone
    · cases List.mem_singleton.mp hm
      cases hnone

/-- The module that is imported into a server with its core module preinitialised. -/
def proxyDso : Dso Unit Nat Unit := ⟨fun _ => true, fun _ => some (quietModule "proxy")⟩

/-- An import that succeeds without a call of its module's callback. -/
theorem imported_not_preinited :
    ∃ s s', run step (⟨[], ()⟩ : Server Unit Nat Unit) [.plug (quietModule "core"), .preinit] =
        some s ∧ handlerImport proxyDso s (ascii "/proxy.so") = (Err.ok, s') ∧
      ∃ m ∈ s'.modules, m.preinited = false ∧ m.preinit.isSome = true ∧ m.preinits = [] ∧
        m.cntx = none := by
  refine ⟨_, _, rfl, rfl, (quietModule "proxy").load, ?_, rfl, rfl, rfl, rfl⟩
  exact List.mem_cons_of_mem _ (List.mem_singleton_self _)

end Floppix.Modules
