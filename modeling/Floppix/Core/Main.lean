import Floppix.Core.CommandLine
import Floppix.Core.Config.Acceptance
import Floppix.Core.Config.Attribution
import Floppix.Core.Config.LevelOrder
import Floppix.Core.Module
import Floppix.Core.Startup

/-! # The program

`main` reads the command line and the configuration file and plugs in the core module. Then it
tests the configuration, or it processes it and initialises the modules. The allocations of `main`
itself succeed here; what modules that are imported do with the server is up to them, save that
they have no part in the settings. The model ends where `main` begins to destroy its pools, which
is undefined for a pool of one page.
-/

namespace Floppix.Program

open Floppix.Configuration Logging CommandLine

inductive Context (C : Type) where
  | server
  | own (cntx : C)

/-- The server around its modules; `rest` belongs to the imported ones. -/
structure Running (P ρ : Type) where
  settings : Settings
  ring : Logger P
  rest : ρ

abbrev PlugIn (P C ρ : Type) :=
  Modules.Module (Handler (Option CoreHandler)) (Context C) (Running P ρ)

abbrev ServerState (P C ρ : Type) :=
  Modules.Server (Handler (Option CoreHandler)) (Context C) (Running P ρ)

/-- What the environment answers to the program. -/
structure Env (P C ρ : Type) where
  defaultConfigPath : Bytes
  fs : FileSystem
  /-- a bound on how deep its directories are nested -/
  depth : Nat
  os : HandlerOs
  loggerInit : Err
  startup : StartupOs P
  /-- the thread that runs `main` -/
  thread : P
  /-- the shared objects, and what the commands of their modules do -/
  dso : Modules.Dso Unit (Context C) (Running P ρ)
  handling : Command (Handler (Option CoreHandler)) → Directive → Option (Context C) →
    Running P ρ → Err × ρ
  rest : ρ
  /-- what the local `err` of `fpx_init_modules` happens to hold -/
  junk : Err

variable {P C ρ : Type} [DecidableEq P]

/-! ## The core module -/

/-- The server that `fpx_pcalloc` leaves. -/
def Env.zeroed (env : Env P C ρ) : Running P ρ where
  settings := ⟨false, [], 0, none, none, [], ⟨false, []⟩, 0⟩
  ring := Logger.init P none
  rest := env.rest

/-- The fields of the settings that `fpx_core_init` reads. -/
def server (settings : Settings) : Server where
  listeners := settings.listeners.map Listening.Listener.toListener
  daemon := settings.daemon
  workdir := settings.workdir
  user := settings.user
  group := settings.group

def sinks (settings : Settings) : List Log := settings.logger.logs.map Sink.toLog

def started (settings : Settings) : Settings :=
  { settings with logger := { settings.logger with running := true } }

def corePreinit (s : Running P ρ) : Option (Context C) × Running P ρ :=
  (some .server, { s with
    settings := { Configuration.corePreinit with listeners := s.settings.listeners } })

/-- `fpx_core_init`. After a failure the program ends, and nothing is kept of it. -/
def Env.coreInit (env : Env P C ρ) (_ : Option (Context C)) (s : Running P ρ) :
    Err × Running P ρ :=
  match Floppix.coreInit (sinks s.settings) env.thread env.startup (server s.settings) s.ring with
  | none => (Err.failed, s)
  | some (err, ring) =>
      if err ≠ Err.ok then (err, s)
      else (Err.ok, { s with settings := started s.settings, ring := ring })

def Env.coreModule (env : Env P C ρ) :
    Modules.Declaration (Handler (Option CoreHandler)) (Context C) (Running P ρ) where
  name := ascii "core"
  cmd := serverCmd
  preinit := some corePreinit
  init := some env.coreInit

/-! ## Imported modules -/

/-- The declaration in a shared object. Its commands have handlers of their own, and its
callbacks see the whole server. -/
def declared (d : Modules.Declaration Unit (Context C) (Running P ρ)) :
    Modules.Declaration (Handler (Option CoreHandler)) (Context C) (Running P ρ) where
  name := d.name
  cmd := d.cmd.map fun cmd => ⟨cmd.name, cmd.takes, .other none⟩
  preinit := d.preinit.map fun preinit s => ((preinit s).1, { s with rest := (preinit s).2.rest })
  init := d.init.map fun init cntx s =>
    ((init cntx s).1, { s with rest := (init cntx s).2.rest })

def Env.objects (env : Env P C ρ) :
    Modules.Dso (Handler (Option CoreHandler)) (Context C) (Running P ρ) where
  dlopen := env.dso.dlopen
  dlsym fname := (env.dso.dlsym fname).map declared

def Env.core (env : Env P C ρ) : PlugIn P C ρ :=
  { env.coreModule.load with
    cntx := some .server
    preinited := true
    preinits := [some .server] }

/-- The core module behind its `preinit`, and modules as they come from shared objects. -/
def Plugged (env : Env P C ρ) (ms : List (PlugIn P C ρ)) : Prop :=
  ∃ imported, ms = env.core :: imported ∧ ∀ m ∈ imported, ∃ d, m = (declared d).load

structure Loaded (env : Env P C ρ) where
  modules : List (PlugIn P C ρ)
  plugged : Plugged env modules
  ring : Logger P
  rest : ρ

variable {env : Env P C ρ} {ms : List (PlugIn P C ρ)}

/-- A pass over modules of which the first one has been through `preinit` ends there. -/
theorem Plugged.preinit (h : Plugged env ms) (rest : Running P ρ) :
    Modules.preinitModules ⟨ms, rest⟩ = (Err.ok, ⟨ms, rest⟩) := by
  obtain ⟨imported, rfl, -⟩ := h
  have hcore : env.core.preinited = true := rfl
  simp only [Modules.preinitModules, Pass.pass_flagged hcore, Option.getD_none]

theorem Plugged.addModule (h : Plugged env ms)
    (d : Modules.Declaration Unit (Context C) (Running P ρ)) :
    Plugged env (ms ++ [(declared d).load]) := by
  obtain ⟨imported, rfl, himported⟩ := h
  refine ⟨imported ++ [(declared d).load], rfl, List.forall_mem_append.mpr ⟨himported, ?_⟩⟩
  intro m hm
  exact ⟨d, List.mem_singleton.mp hm⟩

def Env.plugIn (env : Env P C ρ) (fname : Bytes) :
    Option (Modules.Declaration Unit (Context C) (Running P ρ)) :=
  if env.dso.dlopen fname then env.dso.dlsym fname else none

/-- An import fails, or it adds the module from a shared object. It calls no `preinit`. -/
theorem import_cases (h : Plugged env ms) (rest : Running P ρ) (fname : Bytes) :
    (∃ err, err ≠ Err.ok ∧
      Modules.handlerImport env.objects ⟨ms, rest⟩ fname = (err, ⟨ms, rest⟩)) ∨
      ∃ d, env.plugIn fname = some d ∧ Modules.handlerImport env.objects ⟨ms, rest⟩ fname =
        (Err.ok, ⟨ms ++ [(declared d).load], rest⟩) := by
  unfold Modules.handlerImport Modules.loadModule
  by_cases hpath : checkAbsolutePath fname = Err.ok
  · rw [if_neg (not_not.mpr hpath)]
    cases hopen : env.objects.dlopen fname with
    | false => exact Or.inl ⟨Err.failed, Err.failed_ne_ok, rfl⟩
    | true =>
        cases hsym : env.objects.dlsym fname with
        | none => exact Or.inl ⟨Err.failed, Err.failed_ne_ok, rfl⟩
        | some d' =>
            obtain ⟨d, hfound, hd⟩ := Option.map_eq_some_iff.mp hsym
            simp only [Bool.not_true, Bool.false_eq_true, if_false, Modules.addModule]
            by_cases hname : (ms.any fun other => other.name = d'.load.name) = true
            · rw [if_pos hname]
              exact Or.inl ⟨Err.failed, Err.failed_ne_ok, rfl⟩
            · rw [if_neg hname]
              right
              refine ⟨d, (if_pos hopen).trans hfound, ?_⟩
              rw [← hd]
              exact (h.addModule d).preinit rest
  · rw [if_pos hpath]
    exact Or.inl ⟨checkAbsolutePath fname, hpath, rfl⟩

abbrev Processing (env : Env P C ρ) := ServerWorld (Option (Context C)) (Loaded env)

def serverOf (w : Processing env) : ServerState P C ρ :=
  ⟨w.rest.2.modules, ⟨w.rest.1, w.rest.2.ring, w.rest.2.rest⟩⟩

theorem import_plugged (w : Processing env) (fname : Bytes) :
    Plugged env (Modules.handlerImport env.objects (serverOf w) fname).2.modules := by
  cases import_cases w.rest.2.plugged ⟨w.rest.1, w.rest.2.ring, w.rest.2.rest⟩ fname with
  | inl h =>
      obtain ⟨err, -, heq⟩ := h
      rw [serverOf, heq]
      exact w.rest.2.plugged
  | inr h =>
      obtain ⟨d, -, heq⟩ := h
      rw [serverOf, heq]
      exact w.rest.2.plugged.addModule d

/-- The state of `fpx_config_process` when its server has changed. -/
def changed (w : Processing env) (s : ServerState P C ρ) (h : Plugged env s.modules) :
    Processing env where
  reading := w.reading
  modules := w.modules ++ (s.modules.drop w.rest.2.modules.length).map Modules.Module.table
  rest := (s.rest.settings, ⟨s.modules, h, s.rest.ring, s.rest.rest⟩)

def Env.importing (env : Env P C ρ) (d : Directive) (w : Processing env) :
    Err × Processing env :=
  match d.argv with
  | [] => (Err.failed, w)
  | fname :: _ =>
      let out := Modules.handlerImport env.objects (serverOf w) fname
      (out.1, changed w out.2 (import_plugged w fname))

def Env.plugins (env : Env P C ρ) : Plugins (Option (Context C)) (Loaded env) where
  importing := env.importing
  handling cmd d cntx w :=
    let out := env.handling cmd d cntx (serverOf w).rest
    (out.1, { w with rest := (w.rest.1, { w.rest.2 with rest := out.2 }) })

/-! ## The program -/

def Env.prelinked (env : Env P C ρ) : Err × ServerState P C ρ :=
  Modules.setupPrelinkedModules ⟨[], env.zeroed⟩ [env.coreModule]

theorem prelinked_plugged (env : Env P C ρ) :
    Plugged env (Modules.preinitModules env.prelinked.2).2.modules :=
  ⟨[], rfl, by simp⟩

/-- The server in front of `fpx_config_check` and `fpx_config_process`. -/
def Env.world (env : Env P C ρ) (reading : Reading) : Processing env where
  reading := reading
  modules := (Modules.preinitModules env.prelinked.2).2.modules.map Modules.Module.table
  rest := ((Modules.preinitModules env.prelinked.2).2.rest.settings, {
    modules := (Modules.preinitModules env.prelinked.2).2.modules
    plugged := prelinked_plugged env
    ring := (Modules.preinitModules env.prelinked.2).2.rest.ring
    rest := (Modules.preinitModules env.prelinked.2).2.rest.rest })

def Env.handlers (env : Env P C ρ) :
    Handlers (Handler (Option CoreHandler)) (Option (Context C)) (Settings × Loaded env) :=
  serverHandlers env.fs plenty (env.depth + 1) env.os env.plugins

inductive End (P C ρ : Type) where
  /-- it ends with a status, after these messages of `main` -/
  | exit (status : Nat) (stderr : List (Err × Bytes))
  /-- an assertion fails -/
  | aborted
  /-- in front of `fpx_logger_destroy` in test mode, with this message -/
  | tested (text : Bytes)
  /-- in front of `fpx_pool_destroy(ptemp)`, with everything set up -/
  | ready (confList : List Directive) (server : ServerState P C ρ)

/-- Why a run of the model does not get anywhere. -/
inductive Stop where
  | argv (fault : CommandLine.Fault)
  | config (halt : Halt)

/-- `goto failed`. -/
def failed (err : Err) (text : Bytes) : End P C ρ := .exit 1 [(err, text)]

/-- `main` from `fpx_config_process` to `fpx_init_modules`. -/
def Env.process (env : Env P C ρ) (rounds : Nat) (w : Processing env) :
    Except Stop (End P C ρ) :=
  match configProcess env.handlers rounds w with
  | .error halt => .error (.config halt)
  | .ok (err, w) =>
      if err ≠ Err.ok then .ok (failed err (ascii "Failed to process config"))
      else
        let (err, s) := Modules.initModules env.junk (serverOf w)
        if err ≠ Err.ok then .ok (failed err (ascii "Failed to init modules"))
        else .ok (.ready w.confList s)

def checkText (err : Err) : Bytes :=
  if err = Err.ok then ascii "Configuration check succeeded"
  else ascii "Configuration check failed"

/-- `main` in test mode, up to its message. -/
def Env.test (env : Env P C ρ) (rounds : Nat) (w : Processing env) : Except Stop (End P C ρ) :=
  match configCheck env.handlers rounds w with
  | .error halt => .error (.config halt)
  | .ok (err, _) => .ok (.tested (checkText err))

/-- `main` behind the command line. -/
def Env.start (env : Env P C ρ) (rounds : Nat) (statics : Statics) : Except Stop (End P C ρ) :=
  match configRead env.fs plenty statics.configFname Reading.empty with
  | .error halt => .error (.config halt)
  | .ok (err, reading) =>
      if err ≠ Err.ok then .ok (failed err (ascii "Failed to read config file"))
      else if env.prelinked.1 ≠ Err.ok then
        .ok (failed env.prelinked.1 (ascii "Failed to setup prelinked modules"))
      -- the assertion in `fpx_core_preinit`
      else if env.loggerInit ≠ Err.ok then .ok .aborted
      else
        let err := (Modules.preinitModules env.prelinked.2).1
        if err ≠ Err.ok then .ok (failed err (ascii "Failed to preinit modules"))
        else if statics.testConfig then env.test rounds (env.world reading)
        else env.process rounds (env.world reading)

/-- `main` without what it writes to the standard output. Left out are `fpx_logger_destroy` and the
two `fpx_pool_destroy` of test mode, and behind the initialisation of the modules
`fpx_pool_destroy(ptemp)`, which takes the directives and their strings with it,
`fpx_logger_set_global` and `fpx_server_cycle`. -/
def main (env : Env P C ρ) (rounds : Nat) (argv : List Bytes) : Except Stop (End P C ρ) :=
  match parseArgv env.defaultConfigPath argv.length argv with
  | .error fault => .error (.argv fault)
  | .ok parsed =>
      if parsed.err ≠ Err.ok then
        .ok (.exit 1 (parsed.stderr.toList.map fun text => (Err.ok, text)))
      else if parsed.statics.showVersion then .ok (.exit 0 [])
      else if parsed.statics.showHelp then .ok (.exit 0 [])
      else env.start rounds parsed.statics

end Floppix.Program
