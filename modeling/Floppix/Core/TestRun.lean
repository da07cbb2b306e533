import Floppix.Core.Ready

/-! # Test mode

With `-t` the program checks its configuration and says what comes of it. This is compared with
what it does without `-t`, from the same command line and in the same environment.
-/

namespace Floppix.Program

open Floppix.Configuration Logging CommandLine Worklist Relation

variable {P C ρ : Type} [DecidableEq P] {env : Env P C ρ} {argv0 : Bytes} {args : List Bytes}
  {rounds : Nat} {ds : List Directive} {s : ServerState P C ρ}

/-! ## The check -/

theorem foreach_congr {H D σ : Type}
    {body body' : Directive → World H D σ → Outcome (Err × World H D σ)}
    {I : World H D σ → Prop} (hsame : ∀ d w, I w → body d w = body' d w)
    (hkeep : ∀ d w w', I w → body d w = .ok (Err.ok, w') → I w') {rounds i : Nat}
    {w : World H D σ} (hw : I w) :
    foreachDirective body rounds i w = foreachDirective body' rounds i w := by
  induction rounds generalizing i w with
  | zero => rfl
  | succ rounds ih =>
      unfold foreachDirective
      cases w.confList[i]? with
      | none => rfl
      | some d =>
          simp only [← hsame d w hw]
          cases hrun : body d w with
          | error halt => rfl
          | ok out =>
              obtain ⟨err, w'⟩ := out
              by_cases herr : err = Err.ok
              · rw [herr] at hrun
                simp only [herr, ne_eq, not_true, if_false]
                exact ih (hkeep d w w' hw hrun)
              · simp only [herr, ne_eq, not_false_eq_true, if_true]

section

variable {D τ : Type} {fs : FileSystem} {depth : Nat} {os : HandlerOs} {p : Plugins D τ}

/-- `fpx_config_check` calls no handler but that of `include`. -/
theorem check_eq {d : Directive} {w : ServerWorld D τ} (hw : IncludeIsCore w.modules) :
    checkDirective (serverHandlers fs plenty depth os p) d w =
      checkDirective (coreHandlers fs plenty depth quietOthers) d w := by
  unfold checkDirective
  cases hfind : findCommandInModules w.modules d.name with
  | none => rfl
  | some cmd =>
      by_cases hname : d.name = ascii "include"
      · rw [hname, hw.found] at hfind
        cases hfind
        simp only [callHandler, hname]
        rfl
      · simp only [hname, ne_eq, not_false_eq_true, if_true]

theorem configCheck_eq {w : ServerWorld D τ} (hw : IncludeIsCore w.modules) (rounds : Nat) :
    configCheck (serverHandlers fs plenty (depth + 1) os p) rounds w =
      configCheck (coreHandlers fs plenty (depth + 1) quietOthers) rounds w := by
  apply foreach_congr (I := fun u => IncludeIsCore u.modules) _ _ hw
  · exact fun d u hu => check_eq hu
  · intro d u u' hu hrun
    rw [check_eq hu] at hrun
    exact (((check_round fs depth quietOthers hu).accepted d u u' rfl
      (by rw [accepted, hrun]; rfl)).1).symm ▸ hu

variable {w w' : ServerWorld D τ}

/-- A directive that was accepted is refused by the check if it is not one of the core module. -/
theorem refused_iff (hw : Alone w) {u u' : ServerWorld D τ} (hu : Ready u)
    {d : Directive} (hacc : accepted
      (processDirective (serverHandlers fs plenty (depth + 1) os p)) d u = some u') :
    RefusedByCheck fs (depth + 1) w.modules d.key ↔ d.name ∉ serverCmd.map Command.name := by
  obtain ⟨cntx, hms⟩ := hw.core
  obtain ⟨cmd, m, hfind, hargs, hrun⟩ := process_found (accepted_some hacc)
  have hname := find_name hfind
  have hkey : d.key.1 = d.name := rfl
  have hone : findCommandInModules w.modules d.name =
      serverCmd.find? fun c => c.name = d.name := by
    rw [hms]
    simp only [findCommandInModules]
    cases serverCmd.find? fun c => c.name = d.name <;> rfl
  unfold RefusedByCheck
  rw [hkey, hone]
  cases find_core hu.core hfind with
  | inl hcmd =>
      have hentry := find_entry hcmd
      rw [hname] at hentry
      rw [hentry]
      apply iff_of_false
      · intro h
        cases h with
        | inl hcount =>
            apply hcount
            rw [← hargs, checkDirectiveArguments, d.argc_eq]
            rfl
        | inr hinclude =>
            obtain ⟨hn, path, hpath, hbad⟩ := hinclude
            have hfirst : serverCmd.find? (fun c => c.name = ascii "include") =
                some includeCommand := rfl
            rw [hn, hfirst] at hentry
            cases hentry
            have hhandled : handlerInclude fs plenty (depth + 1) d u = .ok (Err.ok, u') := hrun
            obtain ⟨path', v, hargv, hread, -, -⟩ := handlerInclude_spec depth u
              (includeCommand_args.mp hargs) (not_globFails_of_ok hhandled)
            cases hargv.symm.trans hpath
            rw [hread] at hhandled
            exact hbad (congrArg Prod.fst (Except.ok.inj hhandled))
      · exact not_not.mpr (List.mem_map.mpr ⟨cmd, hcmd, hname⟩)
  | inr hother =>
      have hnone : (serverCmd.find? fun c => c.name = d.name) = none := by
        rw [List.find?_eq_none]
        intro c hc hcname
        apply hother.2
        exact List.mem_map.mpr ⟨c, hc, by simpa using hcname⟩
      rw [hnone]
      exact iff_of_true trivial hother.2

/-- The check of a configuration that can be processed ends, and it succeeds if all directives
are those of the core module. -/
theorem check_of_processed (hp : p.Polite) (hw : Alone w) {rounds : Nat}
    (hrun : configProcess (serverHandlers fs plenty (depth + 1) os p) rounds w =
      .ok (Err.ok, w')) :
    ∃ rounds err v, configCheck (serverHandlers fs plenty (depth + 1) os p) rounds w =
        .ok (err, v) ∧
      (err = Err.ok ↔ ∀ k ∈ w'.keys, k.1 ∈ serverCmd.map Command.name) := by
  have hround (d : Directive) (u u' : ServerWorld D τ) (hu : Ready u)
      (hacc : accepted
        (processDirective (serverHandlers fs plenty (depth + 1) os p)) d u = some u') :
      Ready u' ∧ u'.keys = u.keys ++ expansion fs (depth + 1) d.key := server_round hp hu hacc
  have hcore := hw.ready.includeIsCore
  obtain ⟨n, hn, hend⟩ := after_of_ok rfl hrun
  obtain ⟨hacc, hno⟩ := (finishes_iff hround hw.ready).mp ⟨n, w', hn, hend⟩
  have hcheck := check_round fs depth
    (quietOthers : Others (Option CoreHandler) D (Settings × τ)) hcore
  have hone {x y : Key} (hx : x ∈ w.keys)
      (hxy : ReflTransGen (Appends (expansion fs (depth + 1))) x y) :
      RefusedByCheck fs (depth + 1) w.modules y ↔ y.1 ∉ serverCmd.map Command.name := by
    obtain ⟨m, u, d, hu, hd, hkey⟩ := visits_reachable hround hw.ready hno hx hxy
    cases hdone : accepted
        (processDirective (serverHandlers fs plenty (depth + 1) os p)) d u with
    | none => exact absurd ⟨m, u, d, hu, hd, hdone⟩ hno
    | some u' =>
        rw [← hkey]
        exact refused_iff hw (after_invariant hround hw.ready hu) hdone
  have hrefuses : Refuses World.confList (accepted (checkDirective (coreHandlers fs plenty
      (depth + 1) quietOthers))) w ↔ ∃ k ∈ w'.keys, k.1 ∉ serverCmd.map Command.name := by
    rw [check_refuses_iff quietOthers hcore]
    constructor
    · intro h
      obtain ⟨x, hx, y, hxy, hy⟩ := h
      exact ⟨y, (finished_mem_iff hround hw.ready hn hend).mpr ⟨x, hx, hxy⟩, (hone hx hxy).mp hy⟩
    · intro h
      obtain ⟨y, hy, hname⟩ := h
      obtain ⟨x, hx, hxy⟩ := (finished_mem_iff hround hw.ready hn hend).mp hy
      exact ⟨x, hx, y, hxy, (hone hx hxy).mpr hname⟩
  have hfinishes := finishes_iff hcheck.accepted (rfl : w.modules = w.modules)
  have hsame (rounds : Nat) : configCheck (serverHandlers fs plenty (depth + 1) os p) rounds w =
      configCheck (coreHandlers fs plenty (depth + 1) quietOthers) rounds w :=
    configCheck_eq hcore rounds
  by_cases hall : ∀ k ∈ w'.keys, k.1 ∈ serverCmd.map Command.name
  · have hgood := hfinishes.mpr ⟨hacc, mt hrefuses.mp (by simpa using hall)⟩
    obtain ⟨rounds, v, hv⟩ := foreach_ok_iff.mpr hgood
    exact ⟨rounds, Err.ok, v, (hsame rounds).trans hv, iff_of_true rfl hall⟩
  · have hwhole : ¬ Breaks (checkDirective (coreHandlers fs plenty (depth + 1)
        (quietOthers : Others (Option CoreHandler) D (Settings × τ)))) w := by
      rw [hcheck.breaks_iff rfl]
      intro hmeets
      obtain ⟨x, hx, y, hxy, hglob⟩ := hcheck.failing_reachable rfl hmeets
      have hrefused := (hone hx hxy).mp (hglob.refused hcore)
      obtain ⟨path, rfl, -⟩ := hglob
      have hcmd : ascii "include" ∈ serverCmd.map Command.name := by decide
      exact hrefused hcmd
    have hstops := terminates_iff_stops.mpr
      ⟨(stops_iff hcheck.accepted rfl).mpr (Or.inl hacc), hwhole⟩
    obtain ⟨rounds, ⟨err, v⟩, hr⟩ := hstops
    have herr : err ≠ Err.ok := by
      intro hok
      rw [hok] at hr
      have hnone := (hfinishes.mp (foreach_ok_iff.mp ⟨rounds, v, hr⟩)).2
      exact hall (by simpa using mt hrefuses.mpr hnone)
    exact ⟨rounds, err, v, (hsame rounds).trans hr, iff_of_false herr hall⟩

end

/-! ## The program -/

/-- `-t`. -/
def testUsage : Usage := ⟨⟨[.testConfig], none, by simp⟩, [], rfl⟩

theorem testUsage_args (us : List Usage) :
    ascii "-t" :: us.flatMap Usage.args = (testUsage :: us).flatMap Usage.args := rfl

omit [DecidableEq P] in
theorem testUsage_statics {us : List Usage} (hplain : Plain us) :
    env.statics (testUsage :: us) = ⟨false, false, true, env.configFname us⟩ := by
  have hno {opt : Opt} (hopt : opt ≠ .configFile) (htest : opt ≠ .testConfig) :
      opt ∉ (testUsage :: us).flatMap fun u => u.word.opts := by
    intro hmem
    obtain ⟨u, hu, hin⟩ := List.mem_flatMap.mp hmem
    cases List.mem_cons.mp hu with
    | inl hfirst =>
        rw [hfirst] at hin
        exact htest (List.mem_singleton.mp hin)
    | inr hrest => exact hopt (hplain u hrest opt hin)
  have htest : Opt.testConfig ∈ (testUsage :: us).flatMap fun u => u.word.opts :=
    List.mem_flatMap.mpr ⟨testUsage, List.mem_cons_self .., List.mem_singleton_self _⟩
  have hversion := hno (by decide : Opt.version ≠ .configFile) (by decide)
  have hhelp := hno (by decide : Opt.help ≠ .configFile) (by decide)
  rw [Env.statics, Statics.after, decide_eq_false hversion, decide_eq_false hhelp,
    decide_eq_true htest]
  rfl

theorem checkText_succeeded_iff {err : Err} :
    checkText err = ascii "Configuration check succeeded" ↔ err = Err.ok := by
  by_cases herr : err = Err.ok
  · exact iff_of_true (if_pos herr) herr
  · have hother : ascii "Configuration check failed" ≠ ascii "Configuration check succeeded" := by
      decide
    rw [checkText, if_neg herr]
    exact iff_of_false hother herr

def importEnv : Env Unit Unit Unit :=
  { oneFileEnv with
    fs := listedFs [(ascii "/floppix.conf", ascii "import /proxy.so\nlisten 80\nproxy on\n")] [] []
    dso := ⟨fun _ => true, fun _ => some ⟨ascii "proxy", [⟨ascii "proxy", take1, ()⟩], none, none⟩⟩ }

end Floppix.Program
