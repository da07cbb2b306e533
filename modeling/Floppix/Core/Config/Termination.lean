import Floppix.Core.Config.Handlers
import Floppix.Lib.Worklist
import Mathlib.Data.Set.Finite.Lattice

/-! # When processing comes to an end

The loops over `conf_list` are worklists: an accepted include directive appends the
directives of its files, and no other directive appends anything. With an unchanging
file system that is a relation between directives, and the loops end exactly when it
has no cycle that can be reached from the list, or a directive is refused, and they do not get to
a mask for which `glob` fails.
-/

namespace Floppix.Configuration

open Worklist Relation

variable {H C σ : Type}

/-! ## What a directive appends -/

/-- What a directive with the given name and arguments appends when it is accepted. -/
def expansion (fs : FileSystem) (depth : Nat) (k : Bytes × List Bytes) :
    List (Bytes × List Bytes) :=
  match k with
  | (name, [path]) => if name = ascii "include" then (included fs depth path).2 else []
  | _ => []

theorem reachable_finite {fs : FileSystem} {depth : Nat}
    (hfin : {path | fs.openFile path = none}.Finite) (ks : List (Bytes × List Bytes)) :
    {y | ∃ x ∈ ks, ReflTransGen (Appends (expansion fs (depth + 1))) x y}.Finite := by
  have hdisk : {k | OnDisk fs k}.Finite := by
    let file (path : Bytes) : Set (Bytes × List Bytes) :=
      {k | ∃ content err ks, fs.read path = .ok content ∧ parsed content = .ok (err, ks) ∧ k ∈ ks}
    have hfile : ∀ path, (file path).Finite := by
      intro path
      cases hr : fs.read path with
      | error e => simp [file, hr]
      | ok content =>
          cases hp : parsed content with
          | error f => simp [file, hr, hp]
          | ok r =>
              apply (List.finite_toSet r.2).subset
              rintro k ⟨content', err, ks, hr', hp', hk⟩
              rw [hr] at hr'
              cases hr'
              rw [hp] at hp'
              cases hp'
              exact hk
    refine (hfin.biUnion fun path _ => hfile path).subset ?_
    rintro k ⟨path, content, err, ks, ho, hr, hp, hk⟩
    exact Set.mem_biUnion ho ⟨content, err, ks, hr, hp, hk⟩
  apply ((List.finite_toSet ks).union hdisk).subset
  rintro y ⟨x, hx, hxy⟩
  rcases ReflTransGen.cases_tail hxy with rfl | ⟨z, -, hzy⟩
  · exact Or.inl hx
  · apply Or.inr
    obtain ⟨name, args⟩ := z
    simp only [Appends, expansion] at hzy
    split at hzy
    · split at hzy
      · exact included_onDisk hzy
      · cases hzy
    · cases hzy

/-! ## One round -/

/-- A round as the worklist sees it: the next state, unless the loop ends. -/
def accepted (body : Directive → World H C σ → Outcome (Err × World H C σ)) (d : Directive)
    (w : World H C σ) : Option (World H C σ) :=
  match body d w with
  | .ok (err, w') => if err = Err.ok then some w' else none
  | .error _ => none

theorem accepted_some {body : Directive → World H C σ → Outcome (Err × World H C σ)}
    {d : Directive} {w w' : World H C σ} (h : accepted body d w = some w') :
    body d w = .ok (Err.ok, w') := by
  unfold accepted at h
  split at h
  · rename_i err v hb
    split at h
    · rename_i he
      cases h
      rw [hb, he]
    · cases h
  · cases h

def Terminates {α : Type} (loop : Nat → Outcome α) : Prop := ∃ rounds r, loop rounds = .ok r

theorem foreach_of_after {body : Directive → World H C σ → Outcome (Err × World H C σ)}
    {w₀ : World H C σ} (htotal : ∀ n w d, after World.confList (accepted body) n w₀ = some w →
      w.confList[n]? = some d → ∃ r, body d w = .ok r) {k n : Nat} {w : World H C σ}
    (hw : after World.confList (accepted body) n w₀ = some w)
    (hk : after World.confList (accepted body) (n + k) w₀ = none) :
    ∃ r, foreachDirective body k n w = .ok r := by
  induction k generalizing n w with
  | zero =>
      rw [Nat.add_zero, hw] at hk
      cases hk
  | succ k ih =>
      simp only [foreachDirective]
      cases hd : w.confList[n]? with
      | none => exact ⟨_, rfl⟩
      | some d =>
          obtain ⟨⟨err, w'⟩, hb⟩ := htotal n w d hw hd
          simp only [hb]
          by_cases he : err = Err.ok
          · have hacc : accepted body d w = some w' := by simp [accepted, hb, he]
            rw [if_neg (by simp [he])]
            refine ih (n := n + 1) ?_ (by rw [Nat.add_right_comm, Nat.add_assoc]; exact hk)
            simp [after, hw, hd, hacc]
          · exact ⟨_, if_pos he⟩

/-- The round in which the loop ends. -/
theorem last_of_foreach {body : Directive → World H C σ → Outcome (Err × World H C σ)}
    {w₀ : World H C σ} {k n : Nat} {w : World H C σ} {r : Err × World H C σ}
    (hw : after World.confList (accepted body) n w₀ = some w)
    (hr : foreachDirective body k n w = .ok r) :
    ∃ m u, after World.confList (accepted body) m w₀ = some u ∧
      after World.confList (accepted body) (m + 1) w₀ = none ∧
      ∀ d, u.confList[m]? = some d → ∃ out, body d u = .ok out := by
  induction k generalizing n w with
  | zero => cases hr
  | succ k ih =>
      simp only [foreachDirective] at hr
      cases hd : w.confList[n]? with
      | none => exact ⟨n, w, hw, by simp [after, hw, hd], fun d h => by rw [hd] at h; cases h⟩
      | some d =>
          simp only [hd] at hr
          cases hb : body d w with
          | error halt => simp [hb] at hr
          | ok out =>
              obtain ⟨err, w'⟩ := out
              by_cases he : err = Err.ok
              · have hacc : accepted body d w = some w' := by simp [accepted, hb, he]
                simp only [hb, he, ne_eq, not_true, if_false] at hr
                exact ih (n := n + 1) (by simp [after, hw, hd, hacc]) hr
              · refine ⟨n, w, hw, by simp [after, hw, hd, accepted, hb, he], fun d' hd' => ?_⟩
                rw [hd] at hd'
                cases hd'
                exact ⟨_, hb⟩

/-- The loop gets to a directive for which a round has no result. -/
def Breaks (body : Directive → World H C σ → Outcome (Err × World H C σ)) (w₀ : World H C σ) :
    Prop :=
  ∃ n u d, after World.confList (accepted body) n w₀ = some u ∧ u.confList[n]? = some d ∧
    ∃ halt, body d u = .error halt

/-- The loop over the list ends with a status when the worklist ends and no round of it is without
a result. -/
theorem terminates_iff_stops {body : Directive → World H C σ → Outcome (Err × World H C σ)}
    {w₀ : World H C σ} :
    Terminates (fun rounds => foreachDirective body rounds 0 w₀) ↔
      Stops World.confList (accepted body) w₀ ∧ ¬ Breaks body w₀ := by
  constructor
  · rintro ⟨rounds, r, hr⟩
    obtain ⟨m, u, hu, hend, hlast⟩ := last_of_foreach rfl hr
    refine ⟨⟨m + 1, hend⟩, ?_⟩
    rintro ⟨n, v, d, hv, hd, halt, hbreak⟩
    have hstop : after World.confList (accepted body) (n + 1) w₀ = none := by
      simp [after, hv, hd, accepted, hbreak]
    obtain rfl := last_unique hu hend hv hstop
    rw [hu] at hv
    cases hv
    obtain ⟨out, hout⟩ := hlast d hd
    rw [hbreak] at hout
    cases hout
  · rintro ⟨⟨n, hn⟩, hbreaks⟩
    have htotal : ∀ n w d, after World.confList (accepted body) n w₀ = some w →
        w.confList[n]? = some d → ∃ r, body d w = .ok r := by
      intro n w d hw hd
      cases hb : body d w with
      | error halt => exact absurd ⟨n, w, d, hw, hd, halt, hb⟩ hbreaks
      | ok r => exact ⟨r, rfl⟩
    obtain ⟨r, hr⟩ := foreach_of_after htotal (n := 0) (k := n) rfl (by rwa [Nat.zero_add])
    exact ⟨n, r, hr⟩

/-- The loop over the list returns `FPX_OK` exactly when the worklist gets to its end. -/
theorem foreach_ok_iff {body : Directive → World H C σ → Outcome (Err × World H C σ)}
    {w₀ : World H C σ} :
    (∃ rounds w', foreachDirective body rounds 0 w₀ = .ok (Err.ok, w')) ↔
      Finishes World.confList (accepted body) w₀ := by
  constructor
  · rintro ⟨rounds, w', hr⟩
    have hloop : ∀ k n w, after World.confList (accepted body) n w₀ = some w →
        foreachDirective body k n w = .ok (Err.ok, w') →
        Finishes World.confList (accepted body) w₀ := by
      intro k
      induction k with
      | zero =>
          intro n w _ hr
          cases hr
      | succ k ih =>
          intro n w hw hr
          simp only [foreachDirective] at hr
          cases hd : w.confList[n]? with
          | none => exact ⟨n, w, hw, hd⟩
          | some d =>
              simp only [hd] at hr
              cases hb : body d w with
              | error halt => simp [hb] at hr
              | ok out =>
                  obtain ⟨err, u⟩ := out
                  simp only [hb] at hr
                  by_cases he : err = Err.ok
                  · rw [if_neg (by simp [he])] at hr
                    have hacc : accepted body d w = some u := by simp [accepted, hb, he]
                    exact ih (n + 1) u (by simp [after, hw, hd, hacc]) hr
                  · rw [if_pos he] at hr
                    exact absurd (Prod.ext_iff.mp (Except.ok.inj hr)).1 he
    exact hloop rounds 0 w₀ rfl hr
  · rintro ⟨n, w', hw', hend⟩
    have hloop : ∀ k m w, m + k = n → after World.confList (accepted body) m w₀ = some w →
        foreachDirective body (k + 1) m w = .ok (Err.ok, w') := by
      intro k
      induction k with
      | zero =>
          intro m w hm hw
          rw [Nat.add_zero] at hm
          subst hm
          rw [hw'] at hw
          cases hw
          simp [foreachDirective, hend]
      | succ k ih =>
          intro m w hm hw
          cases hu : after World.confList (accepted body) (m + 1) w₀ with
          | none =>
              rw [after_none_of_le (by omega) hu] at hw'
              cases hw'
          | some u =>
              obtain ⟨t, d, ht, hd, hacc⟩ := after_succ hu
              rw [hw] at ht
              cases ht
              have hrest := ih (m + 1) u (by omega) hu
              rw [foreachDirective]
              simp only [hd, accepted_some hacc, ne_eq, not_true, if_false]
              exact hrest
    exact ⟨n + 1, w', hloop n 0 w₀ (Nat.zero_add n) rfl⟩

/-! ## The rounds of the two loops -/

section

variable {fs : FileSystem} {depth : Nat} {others : Others H C σ}

theorem expansion_include {d : Directive} {path : Bytes} (hn : d.name = ascii "include")
    (ha : d.argv = [path]) : expansion fs depth d.key = (included fs depth path).2 := by
  simp [expansion, Directive.key, hn, ha]

theorem expansion_other {d : Directive} (hn : d.name ≠ ascii "include") :
    expansion fs depth d.key = [] := by
  simp only [expansion, Directive.key]
  split
  · rename_i name path heq
    rw [(Prod.mk.inj heq).1] at hn
    exact if_neg hn
  · rfl

/-- Neither loop has a result for a mask for which `glob` fails. -/
theorem include_breaks {answers : PoolAnswers} (others : Others H C σ) {d : Directive}
    {w : World (Handler H) C σ} (h : IncludeIsCore w.modules) (hfails : IncludesFailing fs d.key) :
    processDirective (coreHandlers fs answers depth others) d w = .error (.fault .uninit) ∧
      checkDirective (coreHandlers fs answers depth others) d w = .error (.fault .uninit) := by
  obtain ⟨path, hkey, hglob⟩ := hfails
  have hargv : d.argv = [path] := congrArg Prod.snd hkey
  have hargc : d.argc = 1 := by rw [d.argc_eq, hargv]; rfl
  obtain ⟨hprocess, hcheck⟩ :=
    include_handled fs answers depth others h (congrArg Prod.fst hkey) hargc
  exact ⟨hprocess.trans (handlerInclude_globFails hargv hglob),
    hcheck.trans (handlerInclude_globFails hargv hglob)⟩

/-- One round of `fpx_config_process` has a status, and appends what its directive
expands to when it is accepted. -/
theorem processDirective_spec (others : Others H C σ) {d : Directive} {w : World (Handler H) C σ}
    (h : IncludeIsCore w.modules) (hglob : ¬ IncludesFailing fs d.key) :
    ∃ err w', processDirective (coreHandlers fs plenty (depth + 1) others) d w = .ok (err, w') ∧
      IncludeIsCore w'.modules ∧
      (err = Err.ok → w'.keys = w.keys ++ expansion fs (depth + 1) d.key) := by
  unfold processDirective
  cases hf : findCommandInModules w.modules d.name with
  | none => exact ⟨_, w, rfl, h, fun he => absurd he (by decide)⟩
  | some cmd =>
      by_cases hargs : checkDirectiveArguments d cmd = Err.ok
      · obtain ⟨m, hm⟩ := find_module hf
        simp only [hargs, ne_eq, not_true, if_false, callHandler, hm]
        cases hh : cmd.handler with
        | incl =>
            have hn := h.only d.name cmd hf hh
            rw [hn, h.found] at hf
            cases hf
            obtain ⟨path, w', ha, hr, hms, hk⟩ :=
              handlerInclude_spec depth w (includeCommand_args.mp hargs) (not_globFails hn hglob)
            refine ⟨_, w', hr, hms ▸ h, fun _ => ?_⟩
            rw [hk, expansion_include hn ha]
        | other o =>
            have hn : d.name ≠ ascii "include" := by
              intro hn
              rw [hn, h.found] at hf
              cases hf
              cases hh
            obtain ⟨ms, hms, hno⟩ := others.modules o cmd d m.cntx w
            refine ⟨_, _, rfl, hms ▸ h.append hno, fun _ => ?_⟩
            rw [expansion_other hn, List.append_nil, World.keys, others.confList]
            rfl
      · exact ⟨_, w, if_pos hargs, h, fun he => absurd he (by decide)⟩

/-- A directive that `fpx_config_check` does not accept in a server with the given modules:
unknown, with a wrong number of arguments, or an include that fails. -/
def RefusedByCheck (fs : FileSystem) (depth : Nat) (ms : List (Module (Handler H) C))
    (k : Bytes × List Bytes) : Prop :=
  match findCommandInModules ms k.1 with
  | none => True
  | some cmd => checkArgumentCount k.2.length cmd ≠ Err.ok ∨
      (k.1 = ascii "include" ∧ ∃ path, k.2 = [path] ∧ (included fs depth path).1 ≠ Err.ok)

/-- One round of `fpx_config_check`: its modules stay, and which directives it refuses
depends on nothing else. -/
theorem checkDirective_spec (others : Others H C σ) {d : Directive} {w : World (Handler H) C σ}
    (h : IncludeIsCore w.modules) (hglob : ¬ IncludesFailing fs d.key) :
    ∃ err w', checkDirective (coreHandlers fs plenty (depth + 1) others) d w = .ok (err, w') ∧
      (err = Err.ok ↔ ¬ RefusedByCheck fs (depth + 1) w.modules d.key) ∧
      (err = Err.ok → w'.modules = w.modules ∧
        w'.keys = w.keys ++ expansion fs (depth + 1) d.key) := by
  unfold checkDirective RefusedByCheck
  have hname : d.key.1 = d.name := rfl
  have hargv : d.key.2 = d.argv := rfl
  rw [hname, hargv, ← d.argc_eq]
  cases hf : findCommandInModules w.modules d.name with
  | none =>
      exact ⟨_, w, rfl, by simp [Err.configSyntax_ne_ok],
        fun he => absurd he Err.configSyntax_ne_ok⟩
  | some cmd =>
      by_cases hargs : checkDirectiveArguments d cmd = Err.ok
      · have hargs' : checkArgumentCount d.argc cmd = Err.ok := hargs
        by_cases hn : d.name = ascii "include"
        · obtain ⟨m, hm⟩ := find_module hf
          rw [hn, h.found] at hf
          cases hf
          obtain ⟨path, w', ha, hr, hms, hk⟩ :=
            handlerInclude_spec depth w (includeCommand_args.mp hargs) (not_globFails hn hglob)
          refine ⟨(included fs (depth + 1) path).1, w', ?_, ?_, fun _ => ⟨hms, ?_⟩⟩
          · simp only [hargs, ne_eq, not_true, if_false, hn, callHandler]
            rw [← hn, hm]
            exact hr
          · simp [hargs', hn, ha]
          · rw [hk, expansion_include hn ha]
        · refine ⟨Err.ok, w, by simp [hargs, hn], by simp [hargs', hn], fun _ => ⟨rfl, ?_⟩⟩
          rw [expansion_other hn, List.append_nil]
      · have hargs' : checkArgumentCount d.argc cmd ≠ Err.ok := hargs
        exact ⟨_, w, if_pos hargs, by simp [Err.configSyntax_ne_ok, hargs'],
          fun he => absurd he Err.configSyntax_ne_ok⟩

/-! ## The loops -/

/-- What a round of either loop does in the states that satisfy `I`: it has a status, unless its
directive includes a mask for which `glob` fails, and a directive it accepts appends its
expansion. -/
structure RoundSpec (fs : FileSystem) (depth : Nat) (I : World H C σ → Prop)
    (body : Directive → World H C σ → Outcome (Err × World H C σ)) : Prop where
  breaks : ∀ d w, I w → IncludesFailing fs d.key → body d w = .error (.fault .uninit)
  round : ∀ d w, I w → ¬ IncludesFailing fs d.key → ∃ err w', body d w = .ok (err, w') ∧
    (err = Err.ok → I w' ∧ w'.keys = w.keys ++ expansion fs depth d.key)

theorem RoundSpec.accepted {I : World H C σ → Prop}
    {body : Directive → World H C σ → Outcome (Err × World H C σ)}
    (h : RoundSpec fs depth I body) (d : Directive) (w w' : World H C σ) (hw : I w)
    (ha : accepted body d w = some w') :
    I w' ∧ w'.keys = w.keys ++ expansion fs depth d.key := by
  have hrun := accepted_some ha
  by_cases hglob : IncludesFailing fs d.key
  · rw [h.breaks d w hw hglob] at hrun
    cases hrun
  · obtain ⟨err, v, hv, hspec⟩ := h.round d w hw hglob
    rw [hrun] at hv
    cases hv
    exact hspec rfl

/-- The loop gets to an include of a mask for which `glob` fails. -/
def MeetsFailing (fs : FileSystem)
    (body : Directive → World H C σ → Outcome (Err × World H C σ)) (w : World H C σ) : Prop :=
  ∃ n u d, after World.confList (Configuration.accepted body) n w = some u ∧
    u.confList[n]? = some d ∧ IncludesFailing fs d.key

theorem RoundSpec.breaks_iff {I : World H C σ → Prop}
    {body : Directive → World H C σ → Outcome (Err × World H C σ)}
    (h : RoundSpec fs depth I body) {w : World H C σ} (hw : I w) :
    Breaks body w ↔ MeetsFailing fs body w := by
  refine exists_congr fun n => exists_congr fun u => exists_congr fun d => ?_
  refine and_congr_right fun hu => and_congr_right fun _ => ?_
  have hinv := after_invariant h.accepted hw hu
  constructor
  · rintro ⟨halt, hhalt⟩
    by_contra hglob
    obtain ⟨err, v, hv, -⟩ := h.round d u hinv hglob
    rw [hhalt] at hv
    cases hv
  · exact fun hglob => ⟨_, h.breaks d u hinv hglob⟩

theorem RoundSpec.failing_reachable {I : World H C σ → Prop}
    {body : Directive → World H C σ → Outcome (Err × World H C σ)}
    (h : RoundSpec fs depth I body) {w : World H C σ} (hw : I w) (hmeets : MeetsFailing fs body w) :
    ∃ x ∈ w.keys, ∃ y, ReflTransGen (Appends (expansion fs depth)) x y ∧
      IncludesFailing fs y := by
  obtain ⟨n, u, d, hu, hd, hglob⟩ := hmeets
  obtain ⟨x, hx, hxd⟩ := reachable_of_after h.accepted hw hu
    (List.mem_map_of_mem (List.mem_of_getElem? hd))
  exact ⟨x, hx, d.key, hxd, hglob⟩

/-- A loop with such rounds comes to an end exactly when its includes have no cycle that
starts in the list, or it gets to a directive it refuses, and `glob` fails for no mask it
gets to. -/
theorem RoundSpec.terminates_iff {I : World H C σ → Prop}
    {body : Directive → World H C σ → Outcome (Err × World H C σ)}
    (h : RoundSpec fs (depth + 1) I body) {w : World H C σ} (hw : I w)
    (hfin : {path | fs.openFile path = none}.Finite) :
    Terminates (fun rounds => foreachDirective body rounds 0 w) ↔
      (¬ Cyclic (expansion fs (depth + 1)) w.keys ∨
        Refuses World.confList (Configuration.accepted body) w) ∧ ¬ MeetsFailing fs body w := by
  rw [Configuration.terminates_iff_stops, h.breaks_iff hw, stops_iff h.accepted hw,
    ← acc_iff_not_cyclic (reachable_finite hfin w.keys)]
  rfl

theorem RoundSpec.visits {I : World H C σ → Prop}
    {body : Directive → World H C σ → Outcome (Err × World H C σ)}
    (h : RoundSpec fs depth I body) {w : World H C σ} (hw : I w)
    (hno : ¬ Refuses World.confList (Configuration.accepted body) w)
    {x y : Bytes × List Bytes} (hx : x ∈ w.keys)
    (hxy : ReflTransGen (Appends (expansion fs depth)) x y) :
    ∃ n u d, after World.confList (Configuration.accepted body) n w = some u ∧
      u.confList[n]? = some d ∧ d.key = y :=
  visits_reachable h.accepted hw hno hx hxy

theorem process_round : RoundSpec fs (depth + 1) (fun w => IncludeIsCore w.modules)
    (processDirective (coreHandlers fs plenty (depth + 1) others)) where
  breaks _ _ hw hglob := (include_breaks others hw hglob).1
  round d w hw hglob := by
    obtain ⟨err, w', hr, hi, hk⟩ := processDirective_spec others hw hglob
    exact ⟨err, w', hr, fun he => ⟨hi, hk he⟩⟩

theorem check_round (fs : FileSystem) (depth : Nat) (others : Others H C σ)
    {ms : List (Module (Handler H) C)} (hms : IncludeIsCore ms) :
    RoundSpec fs (depth + 1) (fun w => w.modules = ms)
      (checkDirective (coreHandlers fs plenty (depth + 1) others)) where
  breaks _ _ hw hglob := (include_breaks others (hw ▸ hms) hglob).2
  round d w hw hglob := by
    obtain ⟨err, w', hr, -, hk⟩ := checkDirective_spec others (hw ▸ hms) hglob
    exact ⟨err, w', hr, fun he => ⟨(hk he).1.trans hw, (hk he).2⟩⟩

/-- `fpx_config_process` refuses a directive it gets to: unknown, with a wrong number of
arguments, or its handler fails in the state the run has reached. -/
def RefusedByProcess (fs : FileSystem) (answers : PoolAnswers) (depth : Nat)
    (others : Others H C σ) (w : World (Handler H) C σ) : Prop :=
  Refuses World.confList (accepted (processDirective (coreHandlers fs answers depth others))) w

theorem process_terminates_iff (others : Others H C σ) {w : World (Handler H) C σ}
    (h : IncludeIsCore w.modules) (hfin : {path | fs.openFile path = none}.Finite) :
    Terminates (fun rounds => configProcess (coreHandlers fs plenty (depth + 1) others) rounds w) ↔
      (¬ Cyclic (expansion fs (depth + 1)) w.keys ∨
        RefusedByProcess fs plenty (depth + 1) others w) ∧
      ¬ MeetsFailing fs (processDirective (coreHandlers fs plenty (depth + 1) others)) w :=
  process_round.terminates_iff h hfin

theorem IncludesFailing.refused {ms : List (Module (Handler H) C)} (h : IncludeIsCore ms)
    {k : Bytes × List Bytes} (hglob : IncludesFailing fs k) : RefusedByCheck fs depth ms k := by
  obtain ⟨path, rfl, hfails⟩ := hglob
  unfold RefusedByCheck
  rw [h.found]
  refine Or.inr ⟨rfl, path, rfl, ?_⟩
  rw [included_globFails hfails]
  exact Err.failed_ne_ok

/-- Which directives `fpx_config_check` refuses does not depend on the run. -/
theorem check_accepted_iff (others : Others H C σ) {w u : World (Handler H) C σ}
    (h : IncludeIsCore w.modules) {n : Nat} {d : Directive}
    (hu : after World.confList
      (accepted (checkDirective (coreHandlers fs plenty (depth + 1) others))) n w = some u) :
    accepted (checkDirective (coreHandlers fs plenty (depth + 1) others)) d u = none ↔
      RefusedByCheck fs (depth + 1) w.modules d.key := by
  have hms : u.modules = w.modules :=
    after_invariant (I := fun v => v.modules = w.modules) (check_round fs depth others h).accepted
      rfl hu
  have hcore : IncludeIsCore u.modules := hms ▸ h
  by_cases hglob : IncludesFailing fs d.key
  · exact iff_of_true (by rw [accepted, (include_breaks others hcore hglob).2]) (hglob.refused h)
  · obtain ⟨err, u', hr, herr, -⟩ := checkDirective_spec others hcore hglob
    rw [hms] at herr
    rw [← not_iff_not, ← herr]
    unfold accepted
    rw [hr]
    by_cases he : err = Err.ok <;> simp [he]

theorem check_refuses_iff (others : Others H C σ) {w : World (Handler H) C σ}
    (h : IncludeIsCore w.modules) :
    Refuses World.confList
        (accepted (checkDirective (coreHandlers fs plenty (depth + 1) others))) w ↔
      ∃ x ∈ w.keys, ∃ y, ReflTransGen (Appends (expansion fs (depth + 1))) x y ∧
        RefusedByCheck fs (depth + 1) w.modules y := by
  have hround := check_round fs depth others h
  constructor
  · rintro ⟨n, u, d, hu, hd, hb⟩
    obtain ⟨x, hx, hxd⟩ := reachable_of_after hround.accepted rfl hu
      (List.mem_map_of_mem (List.mem_of_getElem? hd))
    exact ⟨x, hx, d.key, hxd, (check_accepted_iff others h hu).mp hb⟩
  · rintro ⟨x, hx, y, hxy, hy⟩
    by_contra hno
    obtain ⟨n, u, d, hu, hd, rfl⟩ := hround.visits rfl hno hx hxy
    exact hno ⟨n, u, d, hu, hd, (check_accepted_iff others h hu).mpr hy⟩

/-- Which directives `fpx_config_check` refuses does not depend on the run, and it gets
to all of them. -/
theorem check_terminates_iff (others : Others H C σ) {w : World (Handler H) C σ}
    (h : IncludeIsCore w.modules) (hfin : {path | fs.openFile path = none}.Finite) :
    Terminates (fun rounds => configCheck (coreHandlers fs plenty (depth + 1) others) rounds w) ↔
      (¬ Cyclic (expansion fs (depth + 1)) w.keys ∨
        ∃ x ∈ w.keys, ∃ y, ReflTransGen (Appends (expansion fs (depth + 1))) x y ∧
          RefusedByCheck fs (depth + 1) w.modules y) ∧
      ¬ MeetsFailing fs (checkDirective (coreHandlers fs plenty (depth + 1) others)) w := by
  rw [← check_refuses_iff others h]
  exact (check_round fs depth others h).terminates_iff rfl hfin

/-- With finitely many files, allocations that succeed and an unchanging file system,
`fpx_config_process` comes to an end exactly when the includes that come of `conf_list`
have no cycle or it gets to a directive it refuses, and `fpx_config_check` exactly when
they have no cycle or one of the directives that come of `conf_list` is refused; and neither
gets to a mask for which `glob` fails. -/
theorem include_terminates_iff (others : Others H C σ) {w : World (Handler H) C σ}
    (h : IncludeIsCore w.modules) (hfin : {path | fs.openFile path = none}.Finite) :
    (Terminates (fun rounds => configProcess (coreHandlers fs plenty (depth + 1) others) rounds w) ↔
      (¬ Cyclic (expansion fs (depth + 1)) w.keys ∨
        RefusedByProcess fs plenty (depth + 1) others w) ∧
      ¬ MeetsFailing fs (processDirective (coreHandlers fs plenty (depth + 1) others)) w) ∧
    (Terminates (fun rounds => configCheck (coreHandlers fs plenty (depth + 1) others) rounds w) ↔
      (¬ Cyclic (expansion fs (depth + 1)) w.keys ∨
        ∃ x ∈ w.keys, ∃ y, ReflTransGen (Appends (expansion fs (depth + 1))) x y ∧
          RefusedByCheck fs (depth + 1) w.modules y) ∧
      ¬ MeetsFailing fs (checkDirective (coreHandlers fs plenty (depth + 1) others)) w) :=
  ⟨process_terminates_iff others h hfin, check_terminates_iff others h hfin⟩

end

def listenFs : FileSystem := listedFs [(ascii "/a", ascii "listen 80\n")] [] []

/-- A directive that appends nothing lets both loops end. -/
theorem include_terminates_listen :
    Terminates (fun rounds => configProcess (coreHandlers listenFs plenty 1 quietOthers) rounds
      (startWorld [includeDirective (ascii "/a")])) ∧
    Terminates (fun rounds => configCheck (coreHandlers listenFs plenty 1 quietOthers) rounds
      (startWorld [includeDirective (ascii "/a")])) := by
  have hinc : expansion listenFs 1 (ascii "include", [ascii "/a"]) =
      [(ascii "listen", [ascii "80"])] := by decide
  have hlisten : expansion listenFs 1 (ascii "listen", [ascii "80"]) = [] := by decide
  have hfin : {path | listenFs.openFile path = none}.Finite := listedFs_files_finite _ _ _
  have hno : ¬ Cyclic (expansion listenFs (0 + 1))
      (startWorld [includeDirective (ascii "/a")]).keys := by
    rw [← acc_iff_not_cyclic (reachable_finite hfin _)]
    intro x hx
    cases List.mem_singleton.mp hx
    refine .intro _ fun y hy => ?_
    have hy' : y ∈ expansion listenFs 1 (ascii "include", [ascii "/a"]) := hy
    rw [hinc] at hy'
    cases List.mem_singleton.mp hy'
    refine .intro _ fun z hz => ?_
    have hz' : z ∈ expansion listenFs 1 (ascii "listen", [ascii "80"]) := hz
    rw [hlisten] at hz'
    cases hz'
  have hiff := @include_terminates_iff CoreHandler Unit Unit listenFs 0 quietOthers
    (startWorld [includeDirective (ascii "/a")]) (includeIsCore_prelinked ()) hfin
  have hplain : ¬ ∃ x ∈ (startWorld [includeDirective (ascii "/a")]).keys, ∃ y,
      ReflTransGen (Appends (expansion listenFs 1)) x y ∧ IncludesFailing listenFs y := by
    rintro ⟨x, hx, y, hxy, path, rfl, hfails⟩
    cases List.mem_singleton.mp hx
    rcases ReflTransGen.cases_head hxy with heq | ⟨z, hz, hzy⟩
    · cases heq
      exact absurd hfails.2.1 (by decide)
    · have hz' : z ∈ expansion listenFs 1 (ascii "include", [ascii "/a"]) := hz
      rw [hinc] at hz'
      cases List.mem_singleton.mp hz'
      rcases ReflTransGen.cases_head hzy with heq | ⟨t, ht, -⟩
      · have hname : ascii "listen" = ascii "include" := congrArg Prod.fst heq
        exact absurd hname (by decide)
      · have ht' : t ∈ expansion listenFs 1 (ascii "listen", [ascii "80"]) := ht
        rw [hlisten] at ht'
        cases ht'
  have hprocess := mt ((@process_round CoreHandler Unit Unit listenFs 0
    quietOthers).failing_reachable (includeIsCore_prelinked ())) hplain
  have hcheck := mt ((check_round listenFs 0 quietOthers
    (includeIsCore_prelinked ())).failing_reachable rfl) hplain
  exact ⟨hiff.1.mpr ⟨Or.inl hno, hprocess⟩, hiff.2.mpr ⟨Or.inl hno, hcheck⟩⟩

/-! ## A file that includes itself -/

/-- Rounds that accept the one directive there is and append it again never end. -/
theorem never_ends {k : Bytes × List Bytes} {I : World H C σ → Prop}
    {body : Directive → World H C σ → Outcome (Err × World H C σ)}
    (hbody : ∀ d w, d.key = k → I w →
      ∃ w', body d w = .ok (Err.ok, w') ∧ I w' ∧ w'.keys = w.keys ++ [k])
    {w : World H C σ} (hw : I w) (hk : w.keys = [k]) :
    ¬ Terminates (fun rounds => foreachDirective body rounds 0 w) := by
  rintro ⟨rounds, r, hr⟩
  have hstuck : ∀ rounds i w, I w → w.keys = List.replicate (i + 1) k →
      foreachDirective body rounds i w = .error .fuel := by
    intro rounds
    induction rounds with
    | zero => exact fun _ _ _ _ => rfl
    | succ rounds ih =>
        intro i w hw hk
        have hlen : i < w.confList.length := by
          have := congrArg List.length hk
          simp only [World.keys, List.length_map, List.length_replicate] at this
          omega
        have hd : w.confList[i]? = some w.confList[i] := List.getElem?_eq_getElem hlen
        have hkey : w.confList[i].key = k := by
          apply List.eq_of_mem_replicate (n := i + 1)
          rw [← hk]
          exact List.mem_map_of_mem (List.getElem_mem hlen)
        obtain ⟨w', hb, hw', hk'⟩ := hbody _ w hkey hw
        simp only [foreachDirective, hd, hb, ne_eq, not_true, if_false]
        exact ih (i + 1) w' hw' (by rw [hk', hk, ← List.replicate_succ'])
  have := hstuck rounds 0 w hw hk
  simp only at hr
  rw [this] at hr
  cases hr

def selfFs : FileSystem := listedFs [(ascii "/a", ascii "include /a\n")] [] []

/-- Neither loop gets to the end of a configuration that includes itself. -/
theorem self_include_never_ends :
    ¬ Terminates (fun rounds => configProcess (coreHandlers selfFs plenty 1 quietOthers) rounds
      (startWorld [includeDirective (ascii "/a")])) ∧
    ¬ Terminates (fun rounds => configCheck (coreHandlers selfFs plenty 1 quietOthers) rounds
      (startWorld [includeDirective (ascii "/a")])) := by
  have hinc : included selfFs 1 (ascii "/a") = (Err.ok, [(ascii "include", [ascii "/a"])]) := by
    decide
  have hround : ∀ (d : Directive) (w : World (Handler CoreHandler) Unit Unit),
      d.key = (ascii "include", [ascii "/a"]) → w.modules = prelinkedModules () →
      ∃ w', processDirective (coreHandlers selfFs plenty 1 quietOthers) d w = .ok (Err.ok, w') ∧
        checkDirective (coreHandlers selfFs plenty 1 quietOthers) d w = .ok (Err.ok, w') ∧
        w'.modules = prelinkedModules () ∧
        w'.keys = w.keys ++ [(ascii "include", [ascii "/a"])] := by
    intro d w hd hw
    have hargv : d.argv = [ascii "/a"] := congrArg Prod.snd hd
    have hargc : d.argc = 1 := by rw [d.argc_eq, hargv]; rfl
    have hplain : ∀ path, d.argv = [path] → ¬ GlobFails selfFs path := by
      intro path ha hfails
      cases hargv.symm.trans ha
      exact absurd hfails.2.1 (by decide)
    obtain ⟨path, w', ha, hr, hms, hk⟩ := handlerInclude_spec 0 w hargc hplain
    cases hargv.symm.trans ha
    rw [hinc] at hr hk
    obtain ⟨hprocess, hcheck⟩ := include_handled selfFs plenty 1 quietOthers
      (hw ▸ includeIsCore_prelinked ()) (congrArg Prod.fst hd) hargc
    exact ⟨w', hprocess.trans hr, hcheck.trans hr, hms.trans hw, hk⟩
  constructor
  · refine never_ends (I := fun w => w.modules = prelinkedModules ()) (fun d w hd hw => ?_) rfl rfl
    obtain ⟨w', hprocess, -, hms, hk⟩ := hround d w hd hw
    exact ⟨w', hprocess, hms, hk⟩
  · refine never_ends (I := fun w => w.modules = prelinkedModules ()) (fun d w hd hw => ?_) rfl rfl
    obtain ⟨w', -, hcheck, hms, hk⟩ := hround d w hd hw
    exact ⟨w', hcheck, hms, hk⟩

end Floppix.Configuration
