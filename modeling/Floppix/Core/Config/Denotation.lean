import Floppix.Core.Config.Settings

/-! # What a configuration means

`fpx_config_process` with the handlers of the core module, and with modules that are
imported on the way. The imported code may do what it likes with its own data; it adds
modules behind the core module and leaves the settings alone. Then the settings are
told from the directives alone, and each field by the directives of its name.
-/

namespace Floppix.Configuration

open Components Logging

variable {C τ : Type}

abbrev ServerWorld (C τ : Type) := World (Handler (Option CoreHandler)) C (Settings × τ)

def serverCmd : List (Command (Handler (Option CoreHandler))) :=
  coreCmd.map fun cmd =>
    ⟨cmd.name, cmd.takes, match cmd.handler with | .incl => .incl | .other h => .other (some h)⟩

structure Plugins (C τ : Type) where
  /-- `fpx_handler_import` -/
  importing : Directive → ServerWorld C τ → Err × ServerWorld C τ
  /-- the handlers of the modules -/
  handling : Command (Handler (Option CoreHandler)) → Directive → C → ServerWorld C τ →
    Err × ServerWorld C τ

def Imported (m : Module (Handler (Option CoreHandler)) C) : Prop :=
  ∀ cmd ∈ m.cmd, cmd.handler = .other none

structure Spares (w w' : ServerWorld C τ) : Prop where
  confList : w'.confList = w.confList
  settings : w'.rest.1 = w.rest.1
  modules : ∃ ms, w'.modules = w.modules ++ ms ∧ ∀ m ∈ ms, Imported m

/-- Imported code leaves the settings alone. -/
structure Plugins.Polite (p : Plugins C τ) : Prop where
  importing : ∀ d w, Spares w (p.importing d w).2
  handling : ∀ cmd d cntx w, Spares w (p.handling cmd d cntx w).2

def serverHandlers (fs : FileSystem) (answers : PoolAnswers) (depth : Nat) (os : HandlerOs)
    (p : Plugins C τ) : Handlers (Handler (Option CoreHandler)) C (Settings × τ)
  | .incl, _, d, _, w => handlerInclude fs answers depth d w
  | .other (some .handlerImport), _, d, _, w => .ok (p.importing d w)
  | .other (some h), cmd, d, _, w =>
      (handleSetting os h cmd.name d w.rest.1).map fun out =>
        (out.1, { w with rest := (out.2, w.rest.2) })
  | .other none, cmd, d, cntx, w => .ok (p.handling cmd d cntx w)

def CoreFirst (ms : List (Module (Handler (Option CoreHandler)) C)) : Prop :=
  ∃ cntx rest, ms = ⟨serverCmd, cntx⟩ :: rest ∧ ∀ m ∈ rest, Imported m

structure Ready (w : ServerWorld C τ) : Prop where
  core : CoreFirst w.modules
  idle : w.rest.1.logger.running = false

/-! ## Argument counts -/

section

variable {H : Type} {name : Bytes} {h : H} {argc : Nat}

theorem takes_one : checkArgumentCount argc (⟨name, take1, h⟩ : Command H) = Err.ok ↔ argc = 1 := by
  have hb : takesBounds take1 ((List.range maxTakes).zip takesBits) (0, 0) = (1, 1) := by decide
  simp only [checkArgumentCount, hb]
  by_cases hone : argc = 1
  · simp [hone]
  · have hno : ¬ (argc = 1 ∨ argc ≤ 1 ∧ argc ≥ 1) := by omega
    simp only [if_pos hno, iff_of_false Err.configSyntax_ne_ok hone]

theorem takes_two_three :
    checkArgumentCount argc (⟨name, take2 ||| take3, h⟩ : Command H) = Err.ok ↔
      argc = 2 ∨ argc = 3 := by
  have hb : takesBounds (take2 ||| take3) ((List.range maxTakes).zip takesBits) (0, 0) = (2, 3) := by
    decide
  simp only [checkArgumentCount, hb]
  by_cases hin : argc = 2 ∨ argc = 3
  · have hyes : ¬ ¬ (argc = 2 ∨ argc ≤ 3 ∧ argc ≥ 2) := by omega
    simp only [if_neg hyes, hin]
  · have hno : ¬ (argc = 2 ∨ argc ≤ 3 ∧ argc ≥ 2) := by omega
    simp only [if_pos hno, iff_of_false Err.configSyntax_ne_ok hin]

end

/-! ## One directive -/

theorem find_core {ms : List (Module (Handler (Option CoreHandler)) C)} (h : CoreFirst ms)
    {name : Bytes} {cmd : Command (Handler (Option CoreHandler))}
    (hf : findCommandInModules ms name = some cmd) :
    cmd ∈ serverCmd ∨ cmd.handler = .other none ∧ name ∉ serverCmd.map Command.name := by
  obtain ⟨cntx, rest, hms, himported⟩ := h
  rw [hms] at hf
  simp only [findCommandInModules] at hf
  cases hcore : serverCmd.find? fun c => c.name = name with
  | some c =>
      rw [hcore] at hf
      cases hf
      exact Or.inl (List.mem_of_find?_eq_some hcore)
  | none =>
      rw [hcore] at hf
      right
      constructor
      · obtain ⟨m, hm, hcmd⟩ := find_mem hf
        exact himported m hm cmd hcmd
      · intro hmem
        obtain ⟨c, hc, hname⟩ := List.mem_map.mp hmem
        exact absurd hname (by simpa using List.find?_eq_none.mp hcore c hc)

theorem Spares.ready {w w' : ServerWorld C τ} (h : Spares w w') (hw : Ready w) : Ready w' := by
  obtain ⟨ms, hms, himported⟩ := h.modules
  obtain ⟨cntx, rest, hfirst, hrest⟩ := hw.core
  constructor
  · refine ⟨cntx, rest ++ ms, ?_, List.forall_mem_append.mpr ⟨hrest, himported⟩⟩
    rw [hms, hfirst]
    rfl
  · rw [h.settings]
    exact hw.idle

/-- What an accepted directive has done to a server, and that a failed one has done nothing
to the settings. -/
structure Applies (os : HandlerOs) (d : Directive) (w : ServerWorld C τ) (err : Err)
    (w' : ServerWorld C τ) : Prop where
  ready : Ready w'
  grows : w.confList <+: w'.confList
  settings : w'.rest.1 = if err = Err.ok then w.rest.1.apply os d.key else w.rest.1

variable {fs : FileSystem} {answers : PoolAnswers} {depth : Nat} {os : HandlerOs}
  {p : Plugins C τ} {d : Directive} {w w' : ServerWorld C τ} {err : Err}

theorem Spares.applies (h : Spares w w') (hw : Ready w) (hn : d.name ∉ settingNames) (err : Err) :
    Applies os d w err w' where
  ready := h.ready hw
  grows := by rw [h.confList]
  settings := by rw [h.settings, apply_of_ne hn, ite_self]

theorem applies_refused (hw : Ready w) (herr : err ≠ Err.ok) : Applies os d w err w :=
  ⟨hw, List.prefix_rfl, (if_neg herr).symm⟩

theorem DoesApply.applies {out : Outcome (Err × Settings)} (h : DoesApply os d w.rest.1 out)
    (hw : Ready w)
    (hout : (out.map fun out => (out.1, { w with rest := (out.2, w.rest.2) })) = .ok (err, w')) :
    Applies os d w err w' := by
  cases out with
  | error halt => cases hout
  | ok out =>
      cases hout
      have hsettings := h out.1 out.2 rfl
      refine ⟨⟨hw.core, ?_⟩, List.prefix_rfl, hsettings⟩
      show out.2.logger.running = false
      rw [hsettings]
      split
      · exact hw.idle
      · exact hw.idle

theorem include_applies (hw : Ready w) (hn : d.name = ascii "include")
    (h : handlerInclude fs answers (depth + 1) d w = .ok (err, w')) : Applies os d w err w' := by
  have happly : w.rest.1.apply os d.key = w.rest.1 := apply_of_ne (hn ▸ by decide)
  unfold handlerInclude at h
  split at h
  · cases h
  · split at h
    · cases h
    · rename_i hread
      cases h
      exact ⟨⟨hw.core, hw.idle⟩, readIncluded_grows hread, by rw [happly, ite_self]⟩

theorem core_applies (hp : p.Polite) (hw : Ready w) {cmd : Command (Handler (Option CoreHandler))}
    (hcmd : cmd ∈ serverCmd) (hname : d.name = cmd.name)
    (hargs : checkDirectiveArguments d cmd = Err.ok) {cntx : C}
    (h : serverHandlers fs answers (depth + 1) os p cmd.handler cmd d cntx w = .ok (err, w')) :
    Applies os d w err w' := by
  have hone (ht : d.argc = 1) : ∃ arg, d.argv = [arg] :=
    List.length_eq_one_iff.mp (d.argc_eq ▸ ht)
  have hentries : cmd ∈ [
      (⟨ascii "include", 0x2, .incl⟩ : Command (Handler (Option CoreHandler))),
      ⟨ascii "import", take1, .other (some .handlerImport)⟩,
      ⟨ascii "listen", take1, .other (some .handlerListen)⟩,
      ⟨ascii "log", take2 ||| take3, .other (some .handlerLog)⟩,
      ⟨ascii "daemon", take1, .other (some .handlerFlag)⟩,
      ⟨ascii "workdir", take1, .other (some .handlerStr)⟩,
      ⟨ascii "priority", take1, .other (some .handlerUint)⟩,
      ⟨ascii "user", take1, .other (some .handlerStr)⟩,
      ⟨ascii "group", take1, .other (some .handlerStr)⟩] := hcmd
  simp only [List.mem_cons, List.not_mem_nil, or_false] at hentries
  rcases hentries with rfl | rfl | rfl | rfl | rfl | rfl | rfl | rfl | rfl
  · exact include_applies hw hname h
  · have hspares := hp.importing d w
    have hout : p.importing d w = (err, w') := Except.ok.inj h
    rw [hout] at hspares
    exact hspares.applies hw (hname ▸ by decide) err
  · obtain ⟨arg, harg⟩ := hone (takes_one.mp hargs)
    exact (setting_listen hname harg).applies hw h
  · exact (setting_log hw.idle hname (takes_two_three.mp hargs)).applies hw h
  · obtain ⟨arg, harg⟩ := hone (takes_one.mp hargs)
    exact (setting_daemon hname harg).applies hw h
  · obtain ⟨arg, harg⟩ := hone (takes_one.mp hargs)
    exact (setting_str hname harg (Or.inl rfl)).applies hw h
  · obtain ⟨arg, harg⟩ := hone (takes_one.mp hargs)
    exact (setting_priority hname harg).applies hw h
  · obtain ⟨arg, harg⟩ := hone (takes_one.mp hargs)
    exact (setting_str hname harg (Or.inr (Or.inl rfl))).applies hw h
  · obtain ⟨arg, harg⟩ := hone (takes_one.mp hargs)
    exact (setting_str hname harg (Or.inr (Or.inr rfl))).applies hw h

theorem settingNames_sub : ∀ name ∈ settingNames, name ∈ serverCmd.map Command.name := by decide

theorem process_applies (hp : p.Polite) (hw : Ready w)
    (h : processDirective (serverHandlers fs answers (depth + 1) os p) d w = .ok (err, w')) :
    Applies os d w err w' := by
  unfold processDirective at h
  cases hf : findCommandInModules w.modules d.name with
  | none =>
      rw [hf] at h
      cases h
      exact applies_refused hw Err.configSyntax_ne_ok
  | some cmd =>
      simp only [hf] at h
      by_cases hargs : checkDirectiveArguments d cmd = Err.ok
      · obtain ⟨m, hm⟩ := find_module hf
        simp only [hargs, ne_eq, not_true, if_false, callHandler, hm] at h
        cases find_core hw.core hf with
        | inl hcmd => exact core_applies hp hw hcmd (find_name hf).symm hargs h
        | inr hother =>
            rw [hother.1] at h
            have hname : d.name ∉ settingNames :=
              fun hmem => hother.2 (settingNames_sub d.name hmem)
            have hspares := hp.handling cmd d m.cntx w
            have hout : p.handling cmd d m.cntx w = (err, w') := Except.ok.inj h
            rw [hout] at hspares
            exact hspares.applies hw hname err
      · rw [if_pos hargs] at h
        cases h
        exact applies_refused hw Err.configSyntax_ne_ok

/-! ## All directives -/

def Settings.applyAll (os : HandlerOs) (ks : List Key) (s : Settings) : Settings :=
  Components.applyAll (Settings.apply os) ks s

/-- From any round on, the directives that are accepted are applied in order. -/
theorem foreach_applies (hp : p.Polite) (hw : Ready w) {rounds i : Nat}
    (hi : i ≤ w.confList.length)
    (h : foreachDirective (processDirective (serverHandlers fs answers (depth + 1) os p)) rounds i w =
      .ok (err, w')) :
    w.confList <+: w'.confList ∧ ∃ n, i + n ≤ w'.confList.length ∧
      w'.rest.1 = w.rest.1.applyAll os ((w'.keys.drop i).take n) ∧
      (err = Err.ok → i + n = w'.confList.length) := by
  induction rounds generalizing i w with
  | zero => cases h
  | succ rounds ih =>
      rw [foreachDirective] at h
      cases hd : w.confList[i]? with
      | none =>
          simp only [hd] at h
          have hlen : i = w.confList.length :=
            Nat.le_antisymm hi (List.getElem?_eq_none_iff.mp hd)
          cases h
          exact ⟨List.prefix_rfl, 0, by omega, by rw [List.take_zero]; rfl, fun _ => by omega⟩
      | some d =>
          simp only [hd] at h
          have hlt := (List.getElem?_eq_some_iff.mp hd).1
          cases hround : processDirective (serverHandlers fs answers (depth + 1) os p) d w with
          | error halt =>
              simp only [hround] at h
              cases h
          | ok out =>
              obtain ⟨err', u⟩ := out
              have happlies := process_applies hp hw hround
              simp only [hround] at h
              by_cases herr : err' = Err.ok
              · rw [if_neg (not_not.mpr herr)] at h
                have hgrown := happlies.grows.length_le
                obtain ⟨hgrows, n, hn, hsettings, hend⟩ := ih happlies.ready (by omega) h
                have hall := happlies.grows.trans hgrows
                have hdrop : w'.keys.drop i = d.key :: w'.keys.drop (i + 1) := by
                  rw [World.keys, ← List.map_drop, drop_of_isPrefix hd hall, List.map_cons,
                    List.map_drop]
                refine ⟨hall, n + 1, by omega, ?_, fun hok => by have := hend hok; omega⟩
                rw [hsettings, happlies.settings, if_pos herr, hdrop, List.take_succ_cons]
                rfl
              · rw [if_pos herr] at h
                cases h
                have hgrown := happlies.grows.length_le
                refine ⟨happlies.grows, 0, by omega, ?_, fun hok => absurd hok herr⟩
                rw [happlies.settings, if_neg herr, List.take_zero]
                rfl

/-! ## Field by field -/

/-- The sinks of the log directives among the given ones, in their order. -/
def sinksOf (os : HandlerOs) : Nat → List Key → List Sink
  | _, [] => []
  | asked, k :: ks => (sinkOf os.ssize (os.add asked) k).toList ++ sinksOf os (asked + 1) ks

/-- What a list of directives means: for each field the last directive of its name decides, and
listeners and sinks are those of all their directives. -/
def Settings.denote (os : HandlerOs) (ks : List Key) (s : Settings) : Settings where
  daemon := (ks.filterMap daemonOf).getLast?.getD s.daemon
  workdir := (ks.filterMap (argOf (ascii "workdir"))).getLast?.getD s.workdir
  priority := (ks.filterMap (priorityOf os.ssize)).getLast?.getD s.priority
  user := (ks.filterMap userOf).getLast?.getD s.user
  group := (ks.filterMap groupOf).getLast?.getD s.group
  listeners := s.listeners ++ ks.filterMap listenerOf
  logger := { s.logger with logs := s.logger.logs ++ sinksOf os s.asked (ks.filter isLog) }
  asked := s.asked + (ks.filter isLog).length

/-- The part of the settings that log directives see and change. -/
def Settings.logging (s : Settings) : Sinks × Nat := (s.logger, s.asked)

theorem logging_local (os : HandlerOs) : Local (Settings.apply os) Settings.logging isLog fun k l =>
    ({ l.1 with logs := l.1.logs ++ (sinkOf os.ssize (os.add l.2) k).toList }, l.2 + 1) where
  other k s hk := by
    simp [Settings.apply, Settings.logging, sinkOf, hk]
  own k s hk := by
    simp [Settings.apply, Settings.logging, hk]

theorem logging_applyAll (os : HandlerOs) {ks : List Key} (hks : ∀ k ∈ ks, isLog k = true)
    (l : Sinks × Nat) :
    Components.applyAll (fun k (l : Sinks × Nat) =>
        ({ l.1 with logs := l.1.logs ++ (sinkOf os.ssize (os.add l.2) k).toList }, l.2 + 1)) ks l =
      ({ l.1 with logs := l.1.logs ++ sinksOf os l.2 ks }, l.2 + ks.length) := by
  induction ks generalizing l with
  | nil => simp [sinksOf]
  | cons k ks ih =>
      rw [applyAll_cons, ih fun k' hk' => hks k' (List.mem_cons_of_mem k hk')]
      simp [sinksOf, List.append_assoc, Nat.add_assoc, Nat.add_comm 1]

theorem daemon_overwrites (os : HandlerOs) :
    Overwrites (Settings.apply os) Settings.daemon daemonOf := fun _ _ => rfl

theorem workdir_overwrites (os : HandlerOs) :
    Overwrites (Settings.apply os) Settings.workdir (argOf (ascii "workdir")) := fun _ _ => rfl

theorem priority_overwrites (os : HandlerOs) :
    Overwrites (Settings.apply os) Settings.priority (priorityOf os.ssize) := fun _ _ => rfl

theorem user_overwrites (os : HandlerOs) :
    Overwrites (Settings.apply os) Settings.user userOf := fun _ _ => rfl

theorem group_overwrites (os : HandlerOs) :
    Overwrites (Settings.apply os) Settings.group groupOf := fun _ _ => rfl

theorem listeners_append (os : HandlerOs) :
    Appends (Settings.apply os) Settings.listeners listenerOf := fun _ _ => rfl

/-- Going through the directives makes of the settings what the list means. -/
theorem applyAll_eq_denote (os : HandlerOs) (ks : List Key) (s : Settings) :
    s.applyAll os ks = s.denote os ks := by
  have hdaemon : (s.applyAll os ks).daemon = _ := (daemon_overwrites os).applyAll ks s
  have hworkdir : (s.applyAll os ks).workdir = _ := (workdir_overwrites os).applyAll ks s
  have hpriority : (s.applyAll os ks).priority = _ := (priority_overwrites os).applyAll ks s
  have huser : (s.applyAll os ks).user = _ := (user_overwrites os).applyAll ks s
  have hgroup : (s.applyAll os ks).group = _ := (group_overwrites os).applyAll ks s
  have hlisteners : (s.applyAll os ks).listeners = _ := (listeners_append os).applyAll ks s
  have hlogging : (s.applyAll os ks).logging = _ := (logging_local os).applyAll ks s
  rw [logging_applyAll os fun k hk => (List.mem_filter.mp hk).2] at hlogging
  obtain ⟨hlogger, hasked⟩ := Prod.mk.inj hlogging
  cases hs : s.applyAll os ks
  rw [hs] at hdaemon hworkdir hpriority huser hgroup hlisteners hlogger hasked
  simp only at hdaemon hworkdir hpriority huser hgroup hlisteners hlogger hasked
  rw [Settings.denote, hdaemon, hworkdir, hpriority, huser, hgroup, hlisteners, hlogger, hasked]
  rfl

/-- With success all of `conf_list` counts. -/
theorem accepted_denotes (hp : p.Polite) (hw : Ready w) {rounds : Nat}
    (h : configProcess (serverHandlers fs answers (depth + 1) os p) rounds w = .ok (Err.ok, w')) :
    w'.rest.1 = w.rest.1.denote os w'.keys := by
  have hlen : w'.keys.length = w'.confList.length := List.length_map _
  obtain ⟨-, n, -, hsettings, hend⟩ := foreach_applies hp hw (Nat.zero_le _) h
  have hall := hend rfl
  rwa [List.drop_zero, applyAll_eq_denote, List.take_of_length_le (by omega)] at hsettings

/-! ## The order of the directives -/

theorem filterMap_named {γ : Type} {f : Key → Option γ} {name : Bytes}
    (hf : ∀ k, k.1 ≠ name → f k = none) (ks : List Key) :
    ks.filterMap f = (ks.filter fun k => k.1 = name).filterMap f := by
  induction ks with
  | nil => rfl
  | cons k ks ih =>
      by_cases hk : k.1 = name
      · rw [List.filterMap_cons, ih, List.filter_cons_of_pos (by simpa using hk),
          List.filterMap_cons]
      · rw [List.filterMap_cons, hf k hk, ih, List.filter_cons_of_neg (by simpa using hk)]

theorem argOf_named (name : Bytes) (k : Key) (hk : k.1 ≠ name) : argOf name k = none := by
  unfold argOf
  split
  · exact if_neg hk
  · rfl

/-- The directives of each name that changes settings are the same, in the same order. -/
def SameByName (ks ks' : List Key) : Prop :=
  ∀ name ∈ settingNames, (ks.filter fun k => k.1 = name) = ks'.filter fun k => k.1 = name

theorem SameByName.filterMap {γ : Type} {f : Key → Option γ} {name : Bytes} {ks ks' : List Key}
    (h : SameByName ks ks') (hname : name ∈ settingNames)
    (hf : ∀ k, k.1 ≠ name → f k = none) : ks.filterMap f = ks'.filterMap f := by
  rw [filterMap_named hf ks, filterMap_named hf ks', h name hname]

theorem denote_congr (os : HandlerOs) {ks ks' : List Key} (h : SameByName ks ks') (s : Settings) :
    s.denote os ks = s.denote os ks' := by
  have hone {γ : Type} (name : Bytes) (hname : name ∈ settingNames) (f : Bytes → Option γ) :
      ks.filterMap (fun k => (argOf name k).bind f) =
        ks'.filterMap fun k => (argOf name k).bind f := by
    apply h.filterMap hname
    intro k hk
    rw [argOf_named name k hk]
    rfl
  have hdaemon : ks.filterMap daemonOf = ks'.filterMap daemonOf :=
    hone (ascii "daemon") (by decide) flagValue
  have hpriority : ks.filterMap (priorityOf os.ssize) = ks'.filterMap (priorityOf os.ssize) :=
    hone (ascii "priority") (by decide) (uintValue os.ssize)
  have hlisten : ks.filterMap listenerOf = ks'.filterMap listenerOf :=
    hone (ascii "listen") (by decide) listenerValue
  have hworkdir : ks.filterMap (argOf (ascii "workdir")) = ks'.filterMap (argOf (ascii "workdir")) :=
    h.filterMap (by decide) (argOf_named _)
  have huser : ks.filterMap userOf = ks'.filterMap userOf := by
    have huser : ascii "user" ∈ settingNames := by decide
    apply h.filterMap huser
    intro k hk
    rw [userOf, argOf_named _ k hk]
    rfl
  have hgroup : ks.filterMap groupOf = ks'.filterMap groupOf := by
    have hgroup : ascii "group" ∈ settingNames := by decide
    apply h.filterMap hgroup
    intro k hk
    rw [groupOf, argOf_named _ k hk]
    rfl
  have hlog : ks.filter isLog = ks'.filter isLog := h (ascii "log") (by decide)
  rw [Settings.denote, Settings.denote, hdaemon, hpriority, hlisten, hworkdir, huser, hgroup, hlog]

/-- Two accepted configurations, of whatever files and modules, make the same settings if they
have the same directives of each name in the same order. -/
theorem settings_by_name {fs' : FileSystem} {answers' : PoolAnswers} {depth' rounds rounds' : Nat}
    {C' τ' : Type} {p' : Plugins C' τ'} {v v' : ServerWorld C' τ'} (hp : p.Polite)
    (hp' : p'.Polite) (hw : Ready w) (hv : Ready v) (hstart : v.rest.1 = w.rest.1)
    (h : configProcess (serverHandlers fs answers (depth + 1) os p) rounds w = .ok (Err.ok, w'))
    (h' : configProcess (serverHandlers fs' answers' (depth' + 1) os p') rounds' v =
      .ok (Err.ok, v'))
    (hsame : SameByName w'.keys v'.keys) : w'.rest.1 = v'.rest.1 := by
  rw [accepted_denotes hp hw h, accepted_denotes hp' hv h', hstart]
  exact denote_congr os hsame _

/-! ## Two files -/

def noPlugins : Plugins Unit Unit where
  importing _ w := (Err.failed, w)
  handling _ _ _ w := (Err.ok, w)

theorem noPlugins_polite : noPlugins.Polite := by
  have hsame (w : ServerWorld Unit Unit) : Spares w w :=
    ⟨rfl, rfl, [], (List.append_nil _).symm, by simp⟩
  exact ⟨fun _ w => hsame w, fun _ _ _ w => hsame w⟩

def serverWorld (ds : List Directive) : ServerWorld Unit Unit where
  reading := { Reading.empty with config := ⟨ds, []⟩ }
  modules := [⟨serverCmd, ()⟩]
  rest := (corePreinit, ())

theorem serverWorld_ready (ds : List Directive) : Ready (serverWorld ds) :=
  ⟨⟨(), [], rfl, by simp⟩, rfl⟩

def calmOs : HandlerOs := ⟨ssize64, fun _ => plenty, fun _ => ⟨none, none, .ok [], none, none⟩⟩

def settingsFs : FileSystem :=
  listedFs [(ascii "/one", ascii "workdir /a\nlisten 80\nworkdir /b\nlog stdout info\n"),
    (ascii "/two", ascii "include /more\nworkdir /a\nlog stdout info\n"),
    (ascii "/more", ascii "listen 80\nworkdir /b\n")] [] []

theorem settingsFs_one :
    ∃ w', configProcess (serverHandlers settingsFs plenty 1 calmOs noPlugins) 6
        (serverWorld [includeDirective (ascii "/one")]) = .ok (Err.ok, w') ∧
      w'.keys = [(ascii "include", [ascii "/one"]), (ascii "workdir", [ascii "/a"]),
        (ascii "listen", [ascii "80"]), (ascii "workdir", [ascii "/b"]),
        (ascii "log", [ascii "stdout", ascii "info"])] := ⟨_, rfl, rfl⟩

theorem settingsFs_two :
    ∃ w', configProcess (serverHandlers settingsFs plenty 1 calmOs noPlugins) 7
        (serverWorld [includeDirective (ascii "/two")]) = .ok (Err.ok, w') ∧
      w'.keys = [(ascii "include", [ascii "/two"]), (ascii "include", [ascii "/more"]),
        (ascii "workdir", [ascii "/a"]), (ascii "log", [ascii "stdout", ascii "info"]),
        (ascii "listen", [ascii "80"]), (ascii "workdir", [ascii "/b"])] := ⟨_, rfl, rfl⟩

theorem settings_by_name_two_files :
    ∃ w' v', configProcess (serverHandlers settingsFs plenty 1 calmOs noPlugins) 6
        (serverWorld [includeDirective (ascii "/one")]) = .ok (Err.ok, w') ∧
      configProcess (serverHandlers settingsFs plenty 1 calmOs noPlugins) 7
        (serverWorld [includeDirective (ascii "/two")]) = .ok (Err.ok, v') ∧
      w'.rest.1 = v'.rest.1 := by
  obtain ⟨w', hw, hkeys⟩ := settingsFs_one
  obtain ⟨v', hv, hkeys'⟩ := settingsFs_two
  have hsame : SameByName w'.keys v'.keys := by
    rw [hkeys, hkeys']
    unfold SameByName
    decide
  have hone := serverWorld_ready [includeDirective (ascii "/one")]
  have htwo := serverWorld_ready [includeDirective (ascii "/two")]
  exact ⟨w', v', hw, hv,
    settings_by_name noPlugins_polite noPlugins_polite hone htwo rfl hw hv hsame⟩

end Floppix.Configuration
