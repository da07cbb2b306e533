import Floppix.Core.Config.TestMode
import Floppix.Lib.Levels

/-! # The order of included directives

An include puts the directives of its files behind everything that is in `conf_list` by
then, whatever stands behind the include in its own file. A loop that returns `FPX_OK`
has therefore gone through the directives level by level: those of the main file, those
of the files it includes, those of the files these include, and so on.
-/

namespace Floppix.Configuration

open Worklist

variable {H C σ : Type}

/-- A loop that returns `FPX_OK` has worked off the list it leaves. -/
theorem after_of_ok {body : Directive → World H C σ → Outcome (Err × World H C σ)}
    {w₀ w w' : World H C σ} {rounds n : Nat}
    (hw : after World.confList (accepted body) n w₀ = some w)
    (hr : foreachDirective body rounds n w = .ok (Err.ok, w')) :
    ∃ m, after World.confList (accepted body) m w₀ = some w' ∧ w'.confList[m]? = none := by
  induction rounds generalizing n w with
  | zero => cases hr
  | succ rounds ih =>
      rw [foreachDirective] at hr
      cases hd : w.confList[n]? with
      | none =>
          simp only [hd] at hr
          cases hr
          exact ⟨n, hw, hd⟩
      | some d =>
          simp only [hd] at hr
          cases hb : body d w with
          | error halt =>
              simp only [hb] at hr
              cases hr
          | ok out =>
              obtain ⟨err, u⟩ := out
              simp only [hb] at hr
              by_cases he : err = Err.ok
              · have hacc : accepted body d w = some u := by simp [accepted, hb, he]
                rw [if_neg (not_not.mpr he)] at hr
                exact ih (by simp [after, hw, hd, hacc]) hr
              · rw [if_pos he] at hr
                exact absurd (Prod.ext_iff.mp (Except.ok.inj hr)).1 he

variable {fs : FileSystem} {depth : Nat}

theorem RoundSpec.levels {I : World H C σ → Prop}
    {body : Directive → World H C σ → Outcome (Err × World H C σ)}
    (h : RoundSpec fs depth I body) {w w' : World H C σ} (hw : I w) {rounds : Nat}
    (hr : foreachDirective body rounds 0 w = .ok (Err.ok, w')) :
    ∃ deepest, level (expansion fs depth) w.keys deepest = [] ∧
      w'.keys = (List.range deepest).flatMap (level (expansion fs depth) w.keys) := by
  obtain ⟨n, hn, hend⟩ := after_of_ok rfl hr
  exact finished_levels h.accepted hw hn hend

/-- Both loops go through the directives level by level, and through nothing else. -/
theorem loops_level_by_level (others : Others H C σ) {w w' : World (Handler H) C σ}
    (h : IncludeIsCore w.modules) {rounds : Nat}
    (hr : configProcess (coreHandlers fs plenty (depth + 1) others) rounds w = .ok (Err.ok, w') ∨
      configCheck (coreHandlers fs plenty (depth + 1) others) rounds w = .ok (Err.ok, w')) :
    ∃ deepest, level (expansion fs (depth + 1)) w.keys deepest = [] ∧
      w'.keys = (List.range deepest).flatMap (level (expansion fs (depth + 1)) w.keys) := by
  cases hr with
  | inl hprocess => exact process_round.levels h hprocess
  | inr hcheck => exact (check_round fs depth others h).levels rfl hcheck

/-! ## An include in front of a directive -/

def nestedFs : FileSystem :=
  listedFs [(ascii "/a", ascii "include /b\nworkdir /a\n"), (ascii "/b", ascii "workdir /b\n")] [] []

theorem loops_level_by_level_nested :
    ∃ w', configProcess (coreHandlers nestedFs plenty 1 quietOthers) 5
        (startWorld [includeDirective (ascii "/a")]) = .ok (Err.ok, w') ∧
      ∃ deepest, level (expansion nestedFs 1) [(ascii "include", [ascii "/a"])] deepest = [] ∧
        w'.keys = (List.range deepest).flatMap
          (level (expansion nestedFs 1) [(ascii "include", [ascii "/a"])]) := by
  obtain ⟨w', hw⟩ : ∃ w', configProcess (coreHandlers nestedFs plenty 1 quietOthers) 5
      (startWorld [includeDirective (ascii "/a")]) = .ok (Err.ok, w') := ⟨_, rfl⟩
  exact ⟨w', hw, loops_level_by_level quietOthers (includeIsCore_prelinked ()) (Or.inl hw)⟩

end Floppix.Configuration
