import Floppix.Core.Config.Denotation
import Floppix.Core.Config.Termination
import Floppix.Lib.Outcome

/-! # Which configurations are accepted

A server that has its core module only, and whose imports fail. Whether a directive is
accepted then depends on nothing but the directive and the files, so that one can tell from
the files alone whether `fpx_config_process` gets to its end.
-/

namespace Floppix.Configuration

open Worklist Relation Logging Outcome

variable {C τ α : Type}

def Succeeds (out : Outcome (Err × α)) : Prop := ∃ a, out = .ok (Err.ok, a)

theorem succeeds_ok {err : Err} {a : α} : Succeeds (.ok (err, a)) ↔ err = Err.ok := by
  constructor
  · rintro ⟨b, hb⟩
    cases hb
    rfl
  · rintro rfl
    exact ⟨a, rfl⟩

theorem not_succeeds_error {halt : Halt} : ¬ Succeeds (.error halt : Outcome (Err × α)) := by
  rintro ⟨a, ha⟩
  cases ha

theorem succeeds_map {β : Type} {f : α → β} {out : Outcome (Err × α)} :
    Succeeds (out.map fun r => (r.1, f r.2)) ↔ Succeeds out := by
  cases out with
  | error halt => exact iff_of_false not_succeeds_error not_succeeds_error
  | ok r => exact succeeds_ok.trans succeeds_ok.symm

/-! ## The handlers of the core module -/

def LogArguments (T : SsizeType) : List Bytes → Prop
  | [_, prio] => parseLogLevel prio ≠ logInvalidLevel
  | [_, prio, limit] => parseLogLevel prio ≠ logInvalidLevel ∧
      ∃ size, parseSize T limit = .ok size ∧ size ≠ -1
  | _ => False

variable {os : HandlerOs} {d : Directive} {s : Settings} {arg name : Bytes}

theorem flag_succeeds_iff (ha : d.argv = [arg]) :
    Succeeds (handleSetting os .handlerFlag name d s) ↔ (flagValue arg).isSome = true := by
  simp only [handleSetting, ha]
  by_cases hon : SameUpToCase (argString arg) onText
  · have hvalue : flagValue arg = some true := if_pos hon
    rw [handlerFlag_on hon, hvalue]
    exact iff_of_true (succeeds_ok.mpr rfl) rfl
  · by_cases hoff : SameUpToCase (argString arg) offText
    · have hvalue : flagValue arg = some false := (if_neg hon).trans (if_pos hoff)
      rw [handlerFlag_off hoff, hvalue]
      exact iff_of_true (succeeds_ok.mpr rfl) rfl
    · have hvalue : flagValue arg = none := (if_neg hon).trans (if_neg hoff)
      rw [handlerFlag_other hon hoff, hvalue]
      exact iff_of_false (mt succeeds_ok.mp Err.configSyntax_ne_ok) Bool.false_ne_true

theorem uint_succeeds_iff (ha : d.argv = [arg]) :
    Succeeds (handleSetting os .handlerUint name d s) ↔ (uintValue os.ssize arg).isSome = true := by
  simp only [handleSetting, ha]
  cases hparse : parseSize os.ssize arg with
  | error undefined =>
      simp only [handlerUint, handlerNumber, uintValue, hparse, Bind.bind, Except.bind]
      exact iff_of_false not_succeeds_error Bool.false_ne_true
  | ok size =>
      rw [handlerUint, handlerNumber_eq hparse]
      simp only [uintValue, hparse]
      by_cases hminus : intType.convert size = -1
      · rw [if_pos hminus, if_pos hminus]
        exact iff_of_false (mt succeeds_ok.mp Err.configSyntax_ne_ok) Bool.false_ne_true
      · rw [if_neg hminus, if_neg hminus]
        exact iff_of_true (succeeds_ok.mpr rfl) rfl

theorem str_succeeds (ha : d.argv = [arg]) : Succeeds (handleSetting os .handlerStr name d s) := by
  simp only [handleSetting, ha]
  exact succeeds_ok.mpr rfl

theorem listen_succeeds_iff (hpool : os.pool s.listeners.length = plenty) (ha : d.argv = [arg]) :
    Succeeds (handleSetting os .handlerListen name d s) ↔ (listenerValue arg).isSome = true := by
  have hnext : (fun n => plenty (n + 1)) = plenty := rfl
  have hfirst : plenty 0 = none := rfl
  simp only [handleSetting, ha, handlerListen, hpool, hfirst, hnext, listenerValue]
  cases parseAddrPort plenty arg with
  | error undefined => exact iff_of_false not_succeeds_error Bool.false_ne_true
  | ok out =>
      obtain ⟨rv, addr, port, logged⟩ := out
      simp only [Bind.bind, Except.bind]
      cases rv with
      | invalid => exact iff_of_false (mt succeeds_ok.mp Err.configSyntax_ne_ok) Bool.false_ne_true
      | ipv4 =>
          cases addr with
          | none => exact iff_of_false not_succeeds_error Bool.false_ne_true
          | some addr =>
              cases port with
              | none => exact iff_of_false not_succeeds_error Bool.false_ne_true
              | some port => exact iff_of_true (succeeds_ok.mpr rfl) rfl
      | ipv6 =>
          cases addr with
          | none => exact iff_of_false not_succeeds_error Bool.false_ne_true
          | some addr =>
              cases port with
              | none => exact iff_of_false not_succeeds_error Bool.false_ne_true
              | some port => exact iff_of_true (succeeds_ok.mpr rfl) rfl

theorem log_succeeds_iff (hnode : (os.add s.asked).pallocCleanup = none)
    (hidle : s.logger.running = false) (ha : d.argc = 2 ∨ d.argc = 3) :
    Succeeds (handleSetting os .handlerLog name d s) ↔ LogArguments os.ssize d.argv := by
  rw [d.argc_eq] at ha
  have htwo : 2 ≤ d.argv.length := by omega
  obtain ⟨target, prio, rest, hargv⟩ : ∃ target prio rest, d.argv = target :: prio :: rest := by
    match hargv : d.argv, htwo with
    | target :: prio :: rest, _ => exact ⟨target, prio, rest, rfl⟩
  simp only [handleSetting, hargv]
  by_cases hlevel : parseLogLevel prio = logInvalidLevel
  · have hno : ¬ LogArguments os.ssize (target :: prio :: rest) := by
      cases rest with
      | nil => exact fun h => h hlevel
      | cons limit rest =>
          cases rest with
          | nil => exact fun h => h.1 hlevel
          | cons _ _ => exact id
    rw [handlerLog_unknown hlevel]
    exact iff_of_false (mt succeeds_ok.mp Err.configSyntax_ne_ok) hno
  · cases rest with
    | nil =>
        obtain ⟨⟨out, hlog⟩, -⟩ := @handlerLog_ends os.ssize (os.add s.asked) s.daemon d.line
          target prio [] [] s.logger hnode hlevel
        obtain ⟨err, logger, logged⟩ := out
        obtain ⟨rfl, -⟩ := handlerLog_target hidle hlevel hlog
        simp only [hlog]
        exact iff_of_true (succeeds_ok.mpr rfl) hlevel
    | cons limit rest =>
        have hrest : rest = [] := by
          rw [hargv] at ha
          simp only [List.length_cons] at ha
          exact List.eq_nil_of_length_eq_zero (by omega)
        rw [hrest]
        cases hparse : parseSize os.ssize limit with
        | error undefined =>
            have hno : ¬ LogArguments os.ssize [target, prio, limit] := by
              rintro ⟨-, size, hsize, -⟩
              rw [hparse] at hsize
              cases hsize
            simp only [handlerLog_undefined hlevel hparse]
            exact iff_of_false not_succeeds_error hno
        | ok size =>
            obtain ⟨-, hends⟩ := @handlerLog_ends os.ssize (os.add s.asked) s.daemon d.line
              target prio limit [] s.logger hnode hlevel
            obtain ⟨out, hlog⟩ := hends size hparse
            obtain ⟨err, logger, logged⟩ := out
            obtain ⟨rfl, -⟩ := handlerLog_limit hidle hlevel hparse hlog
            simp only [hlog]
            by_cases hminus : size = -1
            · have hno : ¬ LogArguments os.ssize [target, prio, limit] := by
                rintro ⟨-, other, hsize, hne⟩
                rw [hparse] at hsize
                cases hsize
                exact hne hminus
              rw [if_pos hminus]
              exact iff_of_false (mt succeeds_ok.mp Err.configSyntax_ne_ok) hno
            · rw [if_neg hminus]
              exact iff_of_true (succeeds_ok.mpr rfl) ⟨hlevel, size, hparse, hminus⟩

/-! ## One directive -/

/-- A server with the core module and no other, whose logger is not running yet. -/
structure Alone (w : ServerWorld C τ) : Prop where
  core : ∃ cntx, w.modules = [⟨serverCmd, cntx⟩]
  idle : w.rest.1.logger.running = false

/-- The allocations for listeners succeed, and there is a node for the cleanup of each log
file. -/
structure HandlerOs.Allocates (os : HandlerOs) : Prop where
  listeners : ∀ asked, os.pool asked = plenty
  nodes : ∀ asked, (os.add asked).pallocCleanup = none

def Plugins.Refuse (p : Plugins C τ) : Prop := ∀ d w, (p.importing d w).1 ≠ Err.ok

def Admits (fs : FileSystem) (depth : Nat) (T : SsizeType) :
    Handler (Option CoreHandler) → List Bytes → Prop
  | .incl, [path] => (included fs depth path).1 = Err.ok
  | .other (some .handlerListen), [arg] => (listenerValue arg).isSome = true
  | .other (some .handlerLog), args => LogArguments T args
  | .other (some .handlerFlag), [arg] => (flagValue arg).isSome = true
  | .other (some .handlerUint), [arg] => (uintValue T arg).isSome = true
  | .other (some .handlerStr), [_] => True
  | _, _ => False

/-- A directive that a server on its own accepts: it has an entry in `fpx_core_cmd`, whose
handler takes the arguments. -/
def Admissible (fs : FileSystem) (depth : Nat) (T : SsizeType) (k : Key) : Prop :=
  ∃ cmd ∈ serverCmd, cmd.name = k.1 ∧ Admits fs depth T cmd.handler k.2

variable {fs : FileSystem} {depth : Nat} {p : Plugins C τ} {w w' : ServerWorld C τ}

theorem alone_process (fs : FileSystem) (depth : Nat) (os : HandlerOs) (p : Plugins C τ)
    (d : Directive) (hw : Alone w) : ∃ cntx,
    processDirective (serverHandlers fs plenty (depth + 1) os p) d w =
      match serverCmd.find? fun c => c.name = d.name with
      | none => .ok (Err.configSyntax, w)
      | some cmd =>
          if checkDirectiveArguments d cmd ≠ Err.ok then .ok (Err.configSyntax, w)
          else serverHandlers fs plenty (depth + 1) os p cmd.handler cmd d cntx w := by
  obtain ⟨cntx, hms⟩ := hw.core
  refine ⟨cntx, ?_⟩
  unfold processDirective callHandler
  rw [hms]
  simp only [findCommandInModules, findModuleByCommand]
  cases serverCmd.find? fun c => c.name = d.name with
  | none => rfl
  | some cmd => rfl

theorem args_one {h : Handler (Option CoreHandler)} :
    checkDirectiveArguments d ⟨name, take1, h⟩ = Err.ok ↔ ∃ arg, d.argv = [arg] := by
  rw [← List.length_eq_one_iff, ← d.argc_eq]
  exact takes_one

theorem setting_succeeds {h : CoreHandler} (hne : h ≠ .handlerImport)
    {cmd : Command (Handler (Option CoreHandler))} {cntx : C} :
    Succeeds (serverHandlers fs plenty (depth + 1) os p (.other (some h)) cmd d cntx w) ↔
      Succeeds (handleSetting os h cmd.name d w.rest.1) := by
  cases h with
  | handlerImport => exact absurd rfl hne
  | _ => exact succeeds_map (f := fun s => { w with rest := (s, w.rest.2) })

theorem one_argument_iff {h : Handler (Option CoreHandler)} {cntx : C}
    (hnone : ∀ args, Admits fs (depth + 1) os.ssize h args → ∃ arg, args = [arg])
    (hone : ∀ arg, d.argv = [arg] →
      (Succeeds (serverHandlers fs plenty (depth + 1) os p h ⟨name, take1, h⟩ d cntx w) ↔
        Admits fs (depth + 1) os.ssize h [arg])) :
    (checkDirectiveArguments d ⟨name, take1, h⟩ = Err.ok ∧
      Succeeds (serverHandlers fs plenty (depth + 1) os p h ⟨name, take1, h⟩ d cntx w)) ↔
      Admits fs (depth + 1) os.ssize h d.argv := by
  constructor
  · rintro ⟨hargs, hok⟩
    obtain ⟨arg, harg⟩ := args_one.mp hargs
    rw [harg]
    exact (hone arg harg).mp hok
  · intro hadmits
    obtain ⟨arg, harg⟩ := hnone _ hadmits
    rw [harg] at hadmits
    exact ⟨args_one.mpr ⟨arg, harg⟩, (hone arg harg).mpr hadmits⟩

theorem setting_entry_iff {h : CoreHandler} {cntx : C} (hne : h ≠ .handlerImport)
    (hnone : ∀ args, Admits fs (depth + 1) os.ssize (.other (some h)) args → ∃ arg, args = [arg])
    (hone : ∀ arg, d.argv = [arg] → (Succeeds (handleSetting os h name d w.rest.1) ↔
      Admits fs (depth + 1) os.ssize (.other (some h)) [arg])) :
    (checkDirectiveArguments d
        (⟨name, take1, .other (some h)⟩ : Command (Handler (Option CoreHandler))) = Err.ok ∧
      Succeeds (serverHandlers fs plenty (depth + 1) os p (.other (some h))
        ⟨name, take1, .other (some h)⟩ d cntx w)) ↔
      Admits fs (depth + 1) os.ssize (.other (some h)) d.argv :=
  one_argument_iff hnone fun arg harg => (setting_succeeds hne).trans (hone arg harg)

/-- An entry counts the arguments and its handler looks at them. -/
theorem entry_succeeds_iff (hpool : os.Allocates) (hp : p.Refuse) (hw : Alone w)
    {cmd : Command (Handler (Option CoreHandler))} (hcmd : cmd ∈ serverCmd) (cntx : C) :
    (checkDirectiveArguments d cmd = Err.ok ∧
      Succeeds (serverHandlers fs plenty (depth + 1) os p cmd.handler cmd d cntx w)) ↔
      Admits fs (depth + 1) os.ssize cmd.handler d.argv := by
  have hentries : cmd ∈ [
      (⟨ascii "include", take1, .incl⟩ : Command (Handler (Option CoreHandler))),
      ⟨ascii "import", take1, .other (some .handlerImport)⟩,
      ⟨ascii "listen", take1, .other (some .handlerListen)⟩,
      ⟨ascii "log", take2 ||| take3, .other (some .handlerLog)⟩,
      ⟨ascii "daemon", take1, .other (some .handlerFlag)⟩,
      ⟨ascii "workdir", take1, .other (some .handlerStr)⟩,
      ⟨ascii "priority", take1, .other (some .handlerUint)⟩,
      ⟨ascii "user", take1, .other (some .handlerStr)⟩,
      ⟨ascii "group", take1, .other (some .handlerStr)⟩] := hcmd
  have hstr (args : List Bytes)
      (h : Admits fs (depth + 1) os.ssize (.other (some .handlerStr)) args) :
      ∃ arg, args = [arg] := by
    match args, h with
    | [arg], _ => exact ⟨arg, rfl⟩
  simp only [List.mem_cons, List.not_mem_nil, or_false] at hentries
  rcases hentries with rfl | rfl | rfl | rfl | rfl | rfl | rfl | rfl | rfl
  · apply one_argument_iff
    · intro args h
      match args, h with
      | [path], _ => exact ⟨path, rfl⟩
    · intro path hpath
      have hargc : d.argc = 1 := by rw [d.argc_eq, hpath]; rfl
      have hentry : serverHandlers fs plenty (depth + 1) os p .incl
          ⟨ascii "include", take1, .incl⟩ d cntx w =
            handlerInclude fs plenty (depth + 1) d w := rfl
      rw [hentry]
      by_cases hglob : GlobFails fs path
      · rw [handlerInclude_globFails hpath hglob]
        refine iff_of_false (fun h => ?_) fun h => ?_
        · obtain ⟨w', hw'⟩ := h
          cases hw'
        · rw [Admits, included_globFails hglob] at h
          exact Err.failed_ne_ok h
      · obtain ⟨path', w', hargv, hrun, -, -⟩ := handlerInclude_spec depth w hargc
          fun path' hpath' => by cases hpath.symm.trans hpath'; exact hglob
        cases hpath.symm.trans hargv
        rw [hrun]
        exact succeeds_ok
  · have hno : ¬ Succeeds (serverHandlers fs plenty (depth + 1) os p
        (.other (some .handlerImport))
        ⟨ascii "import", take1, .other (some .handlerImport)⟩ d cntx w) :=
      fun h => hp d w (succeeds_ok.mp h)
    exact iff_of_false (fun h => hno h.2) id
  · apply setting_entry_iff (by decide)
    · intro args h
      match args, h with
      | [arg], _ => exact ⟨arg, rfl⟩
    · exact fun arg harg => listen_succeeds_iff (hpool.listeners _) harg
  · constructor
    · rintro ⟨hargs, hok⟩
      exact (log_succeeds_iff (hpool.nodes _) hw.idle (takes_two_three.mp hargs)).mp
        ((setting_succeeds (by decide)).mp hok)
    · intro hadmits
      have hcount : d.argc = 2 ∨ d.argc = 3 := by
        rw [d.argc_eq]
        match hargv : d.argv, hadmits with
        | [_, _], _ => exact Or.inl rfl
        | [_, _, _], _ => exact Or.inr rfl
      exact ⟨takes_two_three.mpr hcount,
        (setting_succeeds (by decide)).mpr ((log_succeeds_iff (hpool.nodes _) hw.idle hcount).mpr hadmits)⟩
  · apply setting_entry_iff (by decide)
    · intro args h
      match args, h with
      | [arg], _ => exact ⟨arg, rfl⟩
    · exact fun arg harg => flag_succeeds_iff harg
  · exact setting_entry_iff (by decide) hstr fun arg harg => iff_of_true (str_succeeds harg) trivial
  · apply setting_entry_iff (by decide)
    · intro args h
      match args, h with
      | [arg], _ => exact ⟨arg, rfl⟩
    · exact fun arg harg => uint_succeeds_iff harg
  · exact setting_entry_iff (by decide) hstr fun arg harg => iff_of_true (str_succeeds harg) trivial
  · exact setting_entry_iff (by decide) hstr fun arg harg => iff_of_true (str_succeeds harg) trivial

theorem serverCmd_names : (serverCmd.map Command.name).Nodup := by decide

theorem find_entry {cmd : Command (Handler (Option CoreHandler))} (hcmd : cmd ∈ serverCmd) :
    (serverCmd.find? fun c => c.name = cmd.name) = some cmd := by
  cases hfind : serverCmd.find? fun c => c.name = cmd.name with
  | none =>
      have hother := List.find?_eq_none.mp hfind cmd hcmd
      simp at hother
  | some found =>
      have hname : found.name = cmd.name := by simpa using List.find?_some hfind
      have hmem := List.mem_of_find?_eq_some hfind
      rw [List.inj_on_of_nodup_map serverCmd_names hmem hcmd hname]

theorem process_found {H σ : Type} {handlers : Handlers H C σ} {w w' : World H C σ}
    (h : processDirective handlers d w = .ok (Err.ok, w')) :
    ∃ cmd, ∃ m : Module H C, findCommandInModules w.modules d.name = some cmd ∧
      checkDirectiveArguments d cmd = Err.ok ∧
      handlers cmd.handler cmd d m.cntx w = .ok (Err.ok, w') := by
  unfold processDirective at h
  cases hfind : findCommandInModules w.modules d.name with
  | none =>
      rw [hfind] at h
      exact absurd (succeeds_ok.mp ⟨w', h⟩) Err.configSyntax_ne_ok
  | some cmd =>
      simp only [hfind] at h
      by_cases hargs : checkDirectiveArguments d cmd = Err.ok
      · obtain ⟨m, hm⟩ := find_module hfind
        simp only [hargs, ne_eq, not_true, if_false, callHandler, hm] at h
        exact ⟨cmd, m, rfl, hargs, h⟩
      · rw [if_pos hargs] at h
        exact absurd (succeeds_ok.mp ⟨w', h⟩) Err.configSyntax_ne_ok

theorem process_ok (hw : Alone w)
    (h : processDirective (serverHandlers fs plenty (depth + 1) os p) d w = .ok (Err.ok, w')) :
    ∃ cmd ∈ serverCmd, ∃ cntx, cmd.name = d.name ∧ checkDirectiveArguments d cmd = Err.ok ∧
      serverHandlers fs plenty (depth + 1) os p cmd.handler cmd d cntx w = .ok (Err.ok, w') := by
  obtain ⟨cmd, m, hfind, hargs, hrun⟩ := process_found h
  obtain ⟨cntx, hms⟩ := hw.core
  obtain ⟨m', hm', hcmd⟩ := find_mem hfind
  rw [hms] at hm'
  cases List.mem_singleton.mp hm'
  exact ⟨cmd, hcmd, m.cntx, find_name hfind, hargs, hrun⟩

/-- Whether a directive is accepted depends on the directive and the files alone. -/
theorem process_succeeds_iff (hpool : os.Allocates) (hp : p.Refuse) (hw : Alone w) :
    Succeeds (processDirective (serverHandlers fs plenty (depth + 1) os p) d w) ↔
      Admissible fs (depth + 1) os.ssize d.key := by
  constructor
  · rintro ⟨w', h⟩
    obtain ⟨cmd, hcmd, cntx, hname, hargs, hrun⟩ := process_ok hw h
    exact ⟨cmd, hcmd, hname, (entry_succeeds_iff hpool hp hw hcmd cntx).mp ⟨hargs, w', hrun⟩⟩
  · rintro ⟨cmd, hcmd, hname, hadmits⟩
    obtain ⟨cntx, hprocess⟩ := alone_process fs depth os p d hw
    have hfind : (serverCmd.find? fun c => c.name = d.name) = some cmd := by
      have hkey : d.name = cmd.name := hname.symm
      rw [hkey]
      exact find_entry hcmd
    obtain ⟨hargs, hok⟩ := (entry_succeeds_iff hpool hp hw hcmd cntx).mpr hadmits
    rw [hprocess, hfind]
    simp only [hargs, ne_eq, not_true, if_false]
    exact hok

/-! ## All directives -/

theorem Alone.ready (hw : Alone w) : Ready w := by
  obtain ⟨cntx, hms⟩ := hw.core
  exact ⟨⟨cntx, [], hms, by simp⟩, hw.idle⟩

theorem Ready.includeIsCore (hw : Ready w) : IncludeIsCore w.modules := by
  obtain ⟨cntx, rest, hms, -⟩ := hw.core
  constructor
  · rw [hms]
    rfl
  · intro name cmd hfind hincl
    cases find_core hw.core hfind with
    | inl hcmd =>
        rw [← find_name hfind]
        have hname : ∀ c ∈ serverCmd, c.handler = .incl → c.name = ascii "include" := by decide
        exact hname cmd hcmd hincl
    | inr hother =>
        rw [hother.1] at hincl
        cases hincl

theorem include_entry {cmd : Command (Handler (Option CoreHandler))} (hcmd : cmd ∈ serverCmd)
    (hincl : cmd.handler = .incl) : cmd = includeCommand := by
  have hname : ∀ c ∈ serverCmd, c.handler = .incl → c.name = ascii "include" := by decide
  have hfirst : serverCmd.find? (fun c => c.name = ascii "include") = some includeCommand := rfl
  have hfound := find_entry hcmd
  rw [hname cmd hcmd hincl, hfirst] at hfound
  exact (Option.some.inj hfound).symm

theorem other_entry {cmd : Command (Handler (Option CoreHandler))} (hcmd : cmd ∈ serverCmd)
    {h : Option CoreHandler} (hother : cmd.handler = .other h) :
    cmd.name ≠ ascii "include" ∧ ∃ core, h = some core := by
  have hall : ∀ c ∈ serverCmd, c.handler ≠ .incl →
      c.name ≠ ascii "include" ∧ c.handler ≠ .other none := by decide
  have hne : cmd.handler ≠ .incl := by
    rw [hother]
    exact fun h => nomatch h
  obtain ⟨hname, hnone⟩ := hall cmd hcmd hne
  cases h with
  | none => exact absurd hother hnone
  | some core => exact ⟨hname, core, rfl⟩

theorem setting_keeps {h : CoreHandler} (hne : h ≠ .handlerImport)
    {cmd : Command (Handler (Option CoreHandler))} {cntx : C} {err : Err}
    (hrun : serverHandlers fs plenty (depth + 1) os p (.other (some h)) cmd d cntx w =
      .ok (err, w')) : w'.modules = w.modules ∧ w'.keys = w.keys ∧ w'.rest.2 = w.rest.2 := by
  have hmap : ((handleSetting os h cmd.name d w.rest.1).map fun out =>
      (out.1, { w with rest := (out.2, w.rest.2) })) = .ok (err, w') := by
    cases h with
    | handlerImport => exact absurd rfl hne
    | _ => exact hrun
  obtain ⟨out, -, hout⟩ := exists_of_map_ok hmap
  cases hout
  exact ⟨rfl, rfl, rfl⟩

theorem Spares.keys (h : Spares w w') : w'.keys = w.keys := by
  rw [World.keys, World.keys, h.confList]

/-- An accepted directive of any server appends what its files hold. -/
theorem server_round (hp : p.Polite) (hw : Ready w)
    (h : accepted (processDirective (serverHandlers fs plenty (depth + 1) os p)) d w = some w') :
    Ready w' ∧ w'.keys = w.keys ++ expansion fs (depth + 1) d.key := by
  have hround := accepted_some h
  apply And.intro (process_applies hp hw hround).ready
  obtain ⟨cmd, m, hfind, hargs, hrun⟩ := process_found hround
  have hname := find_name hfind
  cases find_core hw.core hfind with
  | inr hother =>
      have hne : d.name ≠ ascii "include" := fun heq => hother.2 (heq ▸ by decide)
      have hspares := hp.handling cmd d m.cntx w
      rw [hother.1] at hrun
      have hout : p.handling cmd d m.cntx w = (Err.ok, w') := Except.ok.inj hrun
      rw [hout] at hspares
      rw [expansion_other hne, List.append_nil]
      exact hspares.keys
  | inl hcmd =>
      cases hhandler : cmd.handler with
      | incl =>
          rw [include_entry hcmd hhandler] at hname hargs
          rw [hhandler] at hrun
          obtain ⟨path, u, hargv, hread, -, hkeys⟩ :=
            handlerInclude_spec depth w (includeCommand_args.mp hargs) (not_globFails_of_ok hrun)
          have hout := hread.symm.trans hrun
          rw [expansion_include hname.symm hargv, ← hkeys, (Prod.mk.inj (Except.ok.inj hout)).2]
      | other other =>
          obtain ⟨hne, core, hcore⟩ := other_entry hcmd hhandler
          rw [expansion_other (hname ▸ hne), List.append_nil]
          rw [hhandler, hcore] at hrun
          by_cases himport : core = .handlerImport
          · have hspares := hp.importing d w
            rw [himport] at hrun
            have hout : p.importing d w = (Err.ok, w') := Except.ok.inj hrun
            rw [hout] at hspares
            exact hspares.keys
          · exact (setting_keeps himport hrun).2.1

theorem accepted_alone (hp : p.Polite) (hrefuse : p.Refuse) (hw : Alone w)
    (h : accepted (processDirective (serverHandlers fs plenty (depth + 1) os p)) d w = some w') :
    Alone w' ∧ w'.keys = w.keys ++ expansion fs (depth + 1) d.key := by
  obtain ⟨hready, hkeys⟩ := server_round hp hw.ready h
  refine ⟨⟨?_, hready.idle⟩, hkeys⟩
  obtain ⟨cmd, hcmd, cntx, hname, hargs, hrun⟩ := process_ok hw (accepted_some h)
  cases hhandler : cmd.handler with
  | incl =>
      rw [include_entry hcmd hhandler] at hargs
      rw [hhandler] at hrun
      obtain ⟨path, u, -, hread, hms, -⟩ :=
        handlerInclude_spec depth w (includeCommand_args.mp hargs) (not_globFails_of_ok hrun)
      have hout := hread.symm.trans hrun
      rw [← (Prod.mk.inj (Except.ok.inj hout)).2, hms]
      exact hw.core
  | other other =>
      obtain ⟨-, core, hcore⟩ := other_entry hcmd hhandler
      rw [hhandler, hcore] at hrun
      have himport : core ≠ .handlerImport := by
        intro heq
        rw [heq] at hrun
        exact hrefuse d w (congrArg Prod.fst (Except.ok.inj hrun))
      rw [(setting_keeps himport hrun).1]
      exact hw.core

theorem alone_finishes_iff (hpool : os.Allocates) (hp : p.Polite) (hrefuse : p.Refuse)
    (hw : Alone w) (hfin : {path | fs.openFile path = none}.Finite) :
    Finishes World.confList
        (accepted (processDirective (serverHandlers fs plenty (depth + 1) os p))) w ↔
      ¬ Cyclic (expansion fs (depth + 1)) w.keys ∧
        ∀ x ∈ w.keys, ∀ y, ReflTransGen (Appends (expansion fs (depth + 1))) x y →
          Admissible fs (depth + 1) os.ssize y := by
  have hround (d : Directive) (u u' : ServerWorld C τ) (hu : Alone u)
      (h : accepted (processDirective (serverHandlers fs plenty (depth + 1) os p)) d u = some u') :
      Alone u' ∧ u'.keys = u.keys ++ expansion fs (depth + 1) d.key :=
    accepted_alone hp hrefuse hu h
  have hbody {d : Directive} {u : ServerWorld C τ} (hu : Alone u) :
      accepted (processDirective (serverHandlers fs plenty (depth + 1) os p)) d u = none ↔
        ¬ Admissible fs (depth + 1) os.ssize d.key := by
    rw [← process_succeeds_iff hpool hrefuse hu, not_iff_not.symm, not_not,
      ← ne_eq, Option.ne_none_iff_exists']
    constructor
    · rintro ⟨u', hu'⟩
      exact ⟨u', accepted_some hu'⟩
    · rintro ⟨u', hu'⟩
      exact ⟨u', by simp [accepted, hu']⟩
  rw [← acc_iff_not_cyclic (reachable_finite hfin w.keys), finishes_iff hround hw]
  apply and_congr_right'
  constructor
  · intro hno x hx y hxy
    by_contra hbad
    obtain ⟨n, u, d, hu, hd, hkey⟩ := visits_reachable hround hw hno hx hxy
    have halone := after_invariant hround hw hu
    exact hno ⟨n, u, d, hu, hd, (hbody halone).mpr (hkey ▸ hbad)⟩
  · rintro hall ⟨n, u, d, hu, hd, hrefused⟩
    obtain ⟨x, hx, hxd⟩ :=
      reachable_of_after hround hw hu (List.mem_map_of_mem (List.mem_of_getElem? hd))
    exact (hbody (after_invariant hround hw hu)).mp hrefused (hall x hx d.key hxd)

theorem serverWorld_alone (ds : List Directive) : Alone (serverWorld ds) := ⟨⟨(), rfl⟩, rfl⟩

end Floppix.Configuration
