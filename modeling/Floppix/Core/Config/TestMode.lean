import Floppix.Core.Config.Dispatch
import Floppix.Core.Config.Termination

/-! # Test mode and a real start

With `-t` the server runs `fpx_config_check` in place of `fpx_config_process`. Both
include files, but only the second imports modules. Here includes and imports succeed
and the other handlers accept what they are given.
-/

namespace Floppix.Configuration

open Worklist Relation

variable {H C σ : Type}

/-- Test mode finds nothing to complain about. -/
def CheckSucceeds (handlers : Handlers H C σ) (w : World H C σ) : Prop :=
  ∃ rounds w', configCheck handlers rounds w = .ok (Err.ok, w')

/-- `fpx_config_process` gets to a directive that is unknown or has a wrong number of
arguments. -/
def MeetsRefused (handlers : Handlers H C σ) (w : World H C σ) : Prop :=
  ∃ n u d, after World.confList (accepted (processDirective handlers)) n w = some u ∧
    u.confList[n]? = some d ∧ Refused u.modules d

/-- Every directive that comes of the configuration is declared by a module the server
has from the start. -/
def DeclaredFromStart (fs : FileSystem) (depth : Nat) (w : World H C σ) : Prop :=
  ∀ x ∈ w.keys, ∀ y, ReflTransGen (Appends (expansion fs depth)) x y → ¬ Undeclared w.modules y.1

/-- The handlers other than `include` accept what they are given. -/
def Others.Accept (others : Others H C σ) : Prop :=
  ∀ h cmd d x w, (others.run h cmd d x w).1 = Err.ok

def IncludesSucceed (fs : FileSystem) (depth : Nat) (w : World H C σ) : Prop :=
  ∀ x ∈ w.keys, ∀ path, ReflTransGen (Appends (expansion fs depth)) x (ascii "include", [path]) →
    (included fs depth path).1 = Err.ok

section

variable {fs : FileSystem} {depth : Nat} {others : Others H C σ} {w u : World (Handler H) C σ}
  {d : Directive}

theorem process_grows {u' : World (Handler H) C σ}
    (hok : processDirective (coreHandlers fs plenty (depth + 1) others) d u = .ok (Err.ok, u')) :
    u.modules <+: u'.modules := by
  have hap := coreHandlers_appending fs plenty depth others
  rw [processDirective_eq] at hok
  rcases refused_or_accepted u.modules d with href | ⟨m, cmd, hacc⟩
  · rw [handleDirective_refused href] at hok
    cases hok
  · rw [handleDirective_accepted hacc] at hok
    exact hap.modules hok

theorem process_round_from (fs : FileSystem) (depth : Nat) (others : Others H C σ)
    (ms : List (Module (Handler H) C)) :
    RoundSpec fs (depth + 1) (fun v => IncludeIsCore v.modules ∧ ms <+: v.modules)
      (processDirective (coreHandlers fs plenty (depth + 1) others)) where
  breaks _ _ hv hglob := (include_breaks others hv.1 hglob).1
  round d v hv hglob := by
    obtain ⟨err, v', hr, hi, hk⟩ := processDirective_spec others hv.1 hglob
    refine ⟨err, v', hr, fun he => ⟨⟨hi, hv.2.trans ?_⟩, hk he⟩⟩
    rw [he] at hr
    exact process_grows hr

theorem IncludesSucceed.not_failing (hincl : IncludesSucceed fs (depth + 1) w)
    {x y : Bytes × List Bytes} (hx : x ∈ w.keys)
    (hxy : ReflTransGen (Appends (expansion fs (depth + 1))) x y) : ¬ IncludesFailing fs y := by
  rintro ⟨path, rfl, hglob⟩
  have hok := hincl x hx path hxy
  rw [included_globFails hglob] at hok
  exact Err.failed_ne_ok hok

theorem process_accepted_iff (hothers : others.Accept) (hincl : IncludesSucceed fs (depth + 1) w)
    (hu : IncludeIsCore u.modules) {x : Bytes × List Bytes} (hx : x ∈ w.keys)
    (hxd : ReflTransGen (Appends (expansion fs (depth + 1))) x d.key) :
    accepted (processDirective (coreHandlers fs plenty (depth + 1) others)) d u = none ↔
      Refused u.modules d := by
  constructor
  · intro hnone
    rcases refused_or_accepted u.modules d with href | ⟨m, cmd, hacc⟩
    · exact href
    · exfalso
      unfold accepted at hnone
      rw [processDirective_eq, handleDirective_accepted hacc] at hnone
      cases hh : cmd.handler with
      | incl =>
          have hn := hu.only d.name cmd hacc.owner.find.1 hh
          have hfound := hacc.owner.find.1
          rw [hn, hu.found] at hfound
          cases hfound
          obtain ⟨path, u', ha, hr, -, -⟩ :=
            handlerInclude_spec depth u (includeCommand_args.mp hacc.args)
              (not_globFails hn (hincl.not_failing hx hxd))
          have hkey : d.key = (ascii "include", [path]) := by rw [Directive.key, hn, ha]
          rw [hkey] at hxd
          rw [hincl x hx path hxd] at hr
          have hcall : coreHandlers fs plenty (depth + 1) others includeCommand.handler
              includeCommand d m.cntx u = .ok (Err.ok, u') := hr
          simp [calledByProcess, hcall] at hnone
      | other h =>
          have hcall : coreHandlers fs plenty (depth + 1) others (.other h) cmd d m.cntx u =
              .ok (Err.ok, (others.run h cmd d m.cntx u).2) := by
            rw [← hothers h cmd d m.cntx u]
            rfl
          simp [calledByProcess, hh, hcall] at hnone
  · intro href
    simp [accepted, processDirective_eq, handleDirective_refused href, Err.configSyntax_ne_ok]

/-- The directives `fpx_config_check` refuses are those no module declares from the start
or whose number of arguments is wrong. -/
theorem refusedByCheck_iff (hincl : IncludesSucceed fs (depth + 1) w)
    {x : Bytes × List Bytes} (hx : x ∈ w.keys)
    (hxd : ReflTransGen (Appends (expansion fs (depth + 1))) x d.key) :
    RefusedByCheck fs (depth + 1) w.modules d.key ↔ Refused w.modules d := by
  have hargc : d.key.2.length = d.argc := d.argc_eq.symm
  unfold RefusedByCheck
  rw [show d.key.1 = d.name from rfl, hargc]
  rcases find_cases w.modules d.name with ⟨hc, -, hno⟩ | ⟨m, cmd, hc, -, howner⟩
  · rw [hc]
    exact iff_of_true trivial (Or.inl hno)
  · rw [hc]
    have href : Refused w.modules d ↔ checkArgumentCount d.argc cmd ≠ Err.ok := by
      constructor
      · rintro (hno | ⟨m', cmd', howner', hargs⟩)
        · exact absurd hno howner.not_undeclared
        · obtain ⟨rfl, rfl⟩ := howner.unique howner'
          exact hargs
      · exact fun hargs => Or.inr ⟨m, cmd, howner, hargs⟩
    rw [href]
    constructor
    · rintro (hargs | ⟨hn, path, hargv, hfail⟩)
      · exact hargs
      · have hkey : d.key = (ascii "include", [path]) := Prod.ext hn hargv
        rw [hkey] at hxd
        exact absurd (hincl x hx path hxd) hfail
    · exact Or.inl

end

/-! ## Agreement -/

section

variable {fs : FileSystem} {depth : Nat} {others : Others H C σ} {w : World (Handler H) C σ}

theorem process_refuses_iff (h : IncludeIsCore w.modules) (hothers : others.Accept)
    (hincl : IncludesSucceed fs (depth + 1) w) :
    Refuses World.confList
        (accepted (processDirective (coreHandlers fs plenty (depth + 1) others))) w ↔
      MeetsRefused (coreHandlers fs plenty (depth + 1) others) w := by
  have hround := process_round_from fs depth others w.modules
  refine exists_congr fun n => exists_congr fun u => exists_congr fun d => ?_
  refine and_congr_right fun hu => and_congr_right fun hd => ?_
  obtain ⟨hcore, -⟩ := after_invariant hround.accepted ⟨h, List.prefix_rfl⟩ hu
  obtain ⟨x, hx, hxd⟩ := reachable_of_after hround.accepted ⟨h, List.prefix_rfl⟩ hu
    (List.mem_map_of_mem (List.mem_of_getElem? hd))
  exact process_accepted_iff hothers hincl hcore hx hxd

/-- Test mode accepts exactly the configurations without circular includes whose
directives are all declared from the start, with their right numbers of arguments. -/
theorem checkSucceeds_iff (h : IncludeIsCore w.modules)
    (hfin : {path | fs.openFile path = none}.Finite) :
    CheckSucceeds (coreHandlers fs plenty (depth + 1) others) w ↔
      ¬ Cyclic (expansion fs (depth + 1)) w.keys ∧
        ∀ x ∈ w.keys, ∀ y, ReflTransGen (Appends (expansion fs (depth + 1))) x y →
          ¬ RefusedByCheck fs (depth + 1) w.modules y := by
  unfold CheckSucceeds configCheck
  rw [foreach_ok_iff, finishes_iff (check_round fs depth others h).accepted rfl,
    check_refuses_iff others h]
  have hacc := acc_iff_not_cyclic (@reachable_finite fs depth hfin w.keys)
  rw [World.keys] at hacc
  rw [hacc, World.keys]
  simp only [not_exists, not_and]

theorem not_meetsRefused_of_check (h : IncludeIsCore w.modules)
    (hincl : IncludesSucceed fs (depth + 1) w)
    (hcheck : ∀ x ∈ w.keys, ∀ y, ReflTransGen (Appends (expansion fs (depth + 1))) x y →
      ¬ RefusedByCheck fs (depth + 1) w.modules y) :
    ¬ MeetsRefused (coreHandlers fs plenty (depth + 1) others) w := by
  have hround := process_round_from fs depth others w.modules
  rintro ⟨n, u, d, hu, hd, href⟩
  obtain ⟨-, hpre⟩ := after_invariant hround.accepted ⟨h, List.prefix_rfl⟩ hu
  obtain ⟨x, hx, hxd⟩ := reachable_of_after hround.accepted ⟨h, List.prefix_rfl⟩ hu
    (List.mem_map_of_mem (List.mem_of_getElem? hd))
  refine hcheck x hx d.key hxd ((refusedByCheck_iff hincl hx hxd).mpr ?_)
  rcases refused_or_accepted w.modules d with hrefused | ⟨m, cmd, hacc⟩
  · exact hrefused
  · have hlater := hacc.append hpre
    rcases href with hno | ⟨m', cmd', howner, hargs⟩
    · exact absurd hno hlater.owner.not_undeclared
    · obtain ⟨rfl, rfl⟩ := hlater.owner.unique howner
      exact absurd hlater.args hargs

theorem check_of_not_meetsRefused (h : IncludeIsCore w.modules) (hothers : others.Accept)
    (hincl : IncludesSucceed fs (depth + 1) w)
    (hno : ¬ MeetsRefused (coreHandlers fs plenty (depth + 1) others) w)
    (hdeclared : DeclaredFromStart fs (depth + 1) w) :
    ∀ x ∈ w.keys, ∀ y, ReflTransGen (Appends (expansion fs (depth + 1))) x y →
      ¬ RefusedByCheck fs (depth + 1) w.modules y := by
  have hround := process_round_from fs depth others w.modules
  intro x hx y hxy
  rw [← process_refuses_iff h hothers hincl] at hno
  obtain ⟨n, u, d, hu, hd, rfl⟩ := hround.visits ⟨h, List.prefix_rfl⟩ hno hx hxy
  obtain ⟨hcore, hpre⟩ := after_invariant hround.accepted ⟨h, List.prefix_rfl⟩ hu
  rw [refusedByCheck_iff hincl hx hxy]
  rintro (hundeclared | ⟨m, cmd, howner, hargs⟩)
  · exact hdeclared x hx d.key hxy hundeclared
  · refine hno ⟨n, u, d, hu, hd, ?_⟩
    rw [process_accepted_iff hothers hincl hcore hx hxy]
    exact Or.inr ⟨m, cmd, howner.append hpre, hargs⟩

/-- With includes and imports succeeding and every other handler accepting its arguments,
test mode says whether a real start meets an unknown directive or a wrong number of
arguments exactly when the start does meet one, or its includes do not go round in
circles and all its directives are declared by the modules the server has from the start.
Of the configurations a start accepts, test mode accepts those. -/
theorem check_agrees_iff (h : IncludeIsCore w.modules)
    (hfin : {path | fs.openFile path = none}.Finite) (hothers : others.Accept)
    (hincl : IncludesSucceed fs (depth + 1) w) :
    ((CheckSucceeds (coreHandlers fs plenty (depth + 1) others) w ↔
        ¬ MeetsRefused (coreHandlers fs plenty (depth + 1) others) w) ↔
      MeetsRefused (coreHandlers fs plenty (depth + 1) others) w ∨
        (¬ Cyclic (expansion fs (depth + 1)) w.keys ∧ DeclaredFromStart fs (depth + 1) w)) ∧
    ((∃ rounds w', configProcess (coreHandlers fs plenty (depth + 1) others) rounds w =
        .ok (Err.ok, w')) →
      (CheckSucceeds (coreHandlers fs plenty (depth + 1) others) w ↔
        DeclaredFromStart fs (depth + 1) w)) := by
  have hdeclared (hcheck : ∀ x ∈ w.keys, ∀ y,
      ReflTransGen (Appends (expansion fs (depth + 1))) x y →
        ¬ RefusedByCheck fs (depth + 1) w.modules y) : DeclaredFromStart fs (depth + 1) w := by
    intro x hx y hxy hundeclared
    apply hcheck x hx y hxy
    unfold RefusedByCheck
    rcases find_cases w.modules y.1 with ⟨hc, -, -⟩ | ⟨m, cmd, -, -, howner⟩
    · rw [hc]
      trivial
    · exact absurd hundeclared howner.not_undeclared
  have hsucceeds (hno : ¬ MeetsRefused (coreHandlers fs plenty (depth + 1) others) w) :
      CheckSucceeds (coreHandlers fs plenty (depth + 1) others) w ↔
        ¬ Cyclic (expansion fs (depth + 1)) w.keys ∧ DeclaredFromStart fs (depth + 1) w := by
    rw [checkSucceeds_iff h hfin]
    exact and_congr_right fun _ =>
      ⟨hdeclared, check_of_not_meetsRefused h hothers hincl hno⟩
  constructor
  · by_cases hmeets : MeetsRefused (coreHandlers fs plenty (depth + 1) others) w
    · refine iff_of_true (iff_of_false ?_ (not_not.mpr hmeets)) (Or.inl hmeets)
      intro hcheck
      exact not_meetsRefused_of_check h hincl
        ((checkSucceeds_iff h hfin).mp hcheck).2 hmeets
    · rw [hsucceeds hmeets]
      simp [hmeets]
  · intro hprocess
    unfold configProcess at hprocess
    rw [foreach_ok_iff, finishes_iff process_round.accepted h,
      process_refuses_iff h hothers hincl] at hprocess
    have hacc := acc_iff_not_cyclic (@reachable_finite fs depth hfin w.keys)
    rw [hsucceeds hprocess.2, ← hacc]
    exact ⟨And.right, fun hd => ⟨hprocess.1, hd⟩⟩

end

/-! ## A directive of an imported module -/

def proxyModule : Module (Handler CoreHandler) Unit :=
  ⟨[⟨ascii "proxy", take1, .other .handlerStr⟩], ()⟩

def importOthers : Others CoreHandler Unit Unit where
  run h _ _ _ w :=
    (Err.ok, if h = .handlerImport then { w with modules := w.modules ++ [proxyModule] } else w)
  confList := by
    intro h c d x w
    dsimp only
    split <;> rfl
  modules := by
    intro h c d x w
    dsimp only
    split
    · exact ⟨[proxyModule], rfl, by simp [proxyModule]⟩
    · exact ⟨[], (List.append_nil _).symm, by simp⟩

def importDirectives : List Directive :=
  [.of (ascii "import") [ascii "/proxy.so"] none 1, .of (ascii "proxy") [ascii "/a"] none 2]

theorem importOthers_accept : importOthers.Accept := fun _ _ _ _ _ => rfl

def importHandlers : Handlers (Handler CoreHandler) Unit Unit :=
  coreHandlers (listedFs [] [] []) plenty 1 importOthers

/-- A configuration that a start accepts and test mode does not. -/
theorem import_fails_check :
    (∃ w', configProcess importHandlers 3 (startWorld importDirectives) = .ok (Err.ok, w')) ∧
      ¬ CheckSucceeds importHandlers (startWorld importDirectives) := by
  refine ⟨⟨_, rfl⟩, ?_⟩
  rintro ⟨rounds, w', h⟩
  match rounds with
  | 0 => cases h
  | 1 => cases h
  | n + 2 =>
      change Except.ok (Err.configSyntax, _) = _ at h
      exact Err.configSyntax_ne_ok (Prod.ext_iff.mp (Except.ok.inj h)).1

/-- There the two differ because a directive is not declared from the start. -/
theorem check_agrees_import :
    CheckSucceeds importHandlers (startWorld importDirectives) ↔
      DeclaredFromStart (listedFs [] [] []) 1 (startWorld importDirectives) := by
  have hincl : IncludesSucceed (listedFs [] [] []) 1 (startWorld importDirectives) := by
    intro x hx path hreach
    have hkeys : x = (ascii "import", [ascii "/proxy.so"]) ∨ x = (ascii "proxy", [ascii "/a"]) := by
      simpa [World.keys, startWorld, World.confList, importDirectives, Directive.of,
        Directive.key] using hx
    have hnil : expansion (listedFs [] [] []) 1 x = [] ∧ x.1 ≠ ascii "include" := by
      rcases hkeys with rfl | rfl <;> decide
    rcases ReflTransGen.cases_head hreach with rfl | ⟨z, hz, -⟩
    · exact absurd rfl hnil.2
    · rw [Appends, hnil.1] at hz
      cases hz
  have hagree := @check_agrees_iff CoreHandler Unit Unit (listedFs [] [] []) 0 importOthers
    (startWorld importDirectives) (includeIsCore_prelinked ()) (listedFs_files_finite _ _ _)
    importOthers_accept hincl
  exact hagree.2 ⟨3, _, rfl⟩

end Floppix.Configuration
