import Floppix.Core.Ready

/-! # Which programs start

A program whose configuration imports nothing. Whether it gets set up is then told from
the command line, the files and what the operating system answers to the core module.
-/

namespace Floppix.Program

open Floppix.Configuration Logging CommandLine Worklist Relation

variable {P C ρ : Type} [DecidableEq P] {env : Env P C ρ} {argv0 : Bytes} {args : List Bytes}

/-! ## The core module -/

/-- What the operating system has to answer to `fpx_core_init`. -/
structure CoreReady (env : Env P C ρ) (settings : Settings) : Prop where
  listens : settings.listeners ≠ []
  opened : ∀ l ∈ settings.listeners, env.startup.listenerBind l.toListener = Err.ok ∧
    env.startup.listenerOpen l.toListener = Err.ok
  workdir : env.startup.process.chdir settings.workdir = none
  user : ∀ user, settings.user = some user → processSetUser env.startup.process user = Err.ok
  group : ∀ group, settings.group = some group →
    processSetGroup env.startup.process group = Err.ok
  logger : ∃ ring, loggerStart (sinks settings) env.startup (Logger.init P none) =
    some (Err.ok, ring)
  daemon : settings.daemon = true → env.startup.process.fork1 = none ∧
    env.startup.process.setsid = none ∧ env.startup.process.fork2 = none

omit [DecidableEq P] in
theorem openListeners_ok_iff {os : StartupOs P} {listeners : List Listener} :
    openListeners os listeners = Err.ok ↔
      ∀ l ∈ listeners, os.listenerBind l = Err.ok ∧ os.listenerOpen l = Err.ok := by
  induction listeners with
  | nil => exact iff_of_true rfl (by simp)
  | cons l rest ih =>
      rw [List.forall_mem_cons, openListeners]
      by_cases hbind : os.listenerBind l = Err.ok
      · by_cases hopen : os.listenerOpen l = Err.ok
        · simp only [hbind, hopen, ne_eq, not_true, if_false, true_and, ih]
        · simp only [hbind, hopen, ne_eq, not_true, if_false, not_false_eq_true, if_true,
            Err.failed_ne_ok, false_and, and_false]
      · simp only [hbind, ne_eq, not_false_eq_true, if_true, Err.failed_ne_ok, false_and]

theorem status_ok_iff {failure : Option Errno} : status failure = Err.ok ↔ failure = none := by
  cases failure with
  | none => exact iff_of_true rfl rfl
  | some e => exact iff_of_false e.code_ne_ok (Option.some_ne_none e)

theorem elim_ok_iff {name : Option Bytes} {set : Bytes → Err} :
    name.elim Err.ok set = Err.ok ↔ ∀ value, name = some value → set value = Err.ok := by
  cases name with
  | none => simp
  | some value => simp

theorem becomeDaemon_ok_iff {σ : Type} {os : ProcessOs} {fork : σ → σ} {s : σ} :
    (processBecomeDaemon os fork s).1 = Err.ok ↔
      os.fork1 = none ∧ os.setsid = none ∧ os.fork2 = none := by
  unfold processBecomeDaemon
  cases hfork : os.fork1 with
  | some e => simp [e.code_ne_ok]
  | none =>
      cases hsetsid : os.setsid with
      | some e => simp [e.code_ne_ok]
      | none =>
          cases hfork' : os.fork2 with
          | some e => simp [e.code_ne_ok]
          | none => simp

/-- A step of `fpx_core_init` that returns at once when it fails. -/
theorem stage_ok_iff {α : Type} {err : Err} {s t : α} {rest : Option (Err × α)} :
    (if err ≠ Err.ok then some (err, s) else rest) = some (Err.ok, t) ↔
      err = Err.ok ∧ rest = some (Err.ok, t) := by
  by_cases herr : err = Err.ok
  · simp [herr]
  · simp [herr]

theorem lastStages_ok_iff (env : Env P C ρ) (settings : Settings) :
    (∃ ring, (loggerStart (sinks settings) env.startup (Logger.init P none)).map (fun (err, s) =>
        if err ≠ Err.ok then (err, s)
        else if (server settings).daemon then
          processBecomeDaemon env.startup.process (Logger.fork env.thread) s
        else (Err.ok, s)) = some (Err.ok, ring)) ↔
      (∃ ring, loggerStart (sinks settings) env.startup (Logger.init P none) =
        some (Err.ok, ring)) ∧
      (settings.daemon = true → env.startup.process.fork1 = none ∧
        env.startup.process.setsid = none ∧ env.startup.process.fork2 = none) := by
  cases loggerStart (sinks settings) env.startup (Logger.init P none) with
  | none => simp
  | some out =>
      obtain ⟨err, ring⟩ := out
      by_cases herr : err = Err.ok
      · cases hdaemon : settings.daemon with
        | false => simp [herr, server, hdaemon]
        | true =>
            have hforks : (∃ ring', processBecomeDaemon env.startup.process
                (Logger.fork env.thread) ring = (Err.ok, ring')) ↔
                env.startup.process.fork1 = none ∧ env.startup.process.setsid = none ∧
                  env.startup.process.fork2 = none := by
              rw [← becomeDaemon_ok_iff]
              constructor
              · intro h
                obtain ⟨ring', hring⟩ := h
                exact congrArg Prod.fst hring
              · intro h
                exact ⟨_, Prod.ext h rfl⟩
            simpa [herr, server, hdaemon] using hforks
      · simp [herr]

theorem coreStarts_iff (env : Env P C ρ) (settings : Settings) :
    (∃ ring, env.CoreStarts settings (Logger.init P none) ring) ↔ CoreReady env settings := by
  have hlength : (server settings).listeners.length = 0 ↔ settings.listeners = [] := by
    rw [server, List.length_map, List.length_eq_zero_iff]
  have hopened : openListeners env.startup (server settings).listeners = Err.ok ↔
      ∀ l ∈ settings.listeners, env.startup.listenerBind l.toListener = Err.ok ∧
        env.startup.listenerOpen l.toListener = Err.ok := by
    rw [openListeners_ok_iff]
    exact List.forall_mem_map
  unfold Env.CoreStarts Floppix.coreInit
  by_cases hnone : settings.listeners = []
  · have hno : ¬ CoreReady env settings := fun h => h.listens hnone
    simp [hlength, hnone, Err.failed_ne_ok, hno]
  · simp only [hlength, if_neg hnone, stage_ok_iff, exists_and_left, lastStages_ok_iff, hopened,
      processSetWorkdir, status_ok_iff, elim_ok_iff]
    constructor
    · intro h
      obtain ⟨hopens, hworkdir, huser, hgroup, hlogger, hdaemon⟩ := h
      exact ⟨hnone, hopens, hworkdir, huser, hgroup, hlogger, hdaemon⟩
    · intro h
      exact ⟨h.opened, h.workdir, h.user, h.group, h.logger, h.daemon⟩

/-! ## Programs that import nothing -/

/-- No shared object can be opened. -/
def Env.NoObjects (env : Env P C ρ) : Prop := ∀ fname, env.dso.dlopen fname = false

omit [DecidableEq P] in
theorem importOf_noObjects (h : env.NoObjects) (k : Key) : env.importOf k = [] := by
  unfold Env.importOf Env.plugIn
  cases argOf (ascii "import") k with
  | none => rfl
  | some fname => simp [h fname]

theorem plugins_refuse (h : env.NoObjects) : env.plugins.Refuse := by
  intro d w
  cases importing_adds env d w with
  | inl hno => exact hno.1
  | inr hyes =>
      obtain ⟨fname, rest, m, -, hm, -⟩ := hyes
      simp [Env.plugIn, h fname] at hm

end Floppix.Program
