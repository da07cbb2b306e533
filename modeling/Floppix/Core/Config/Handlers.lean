import Floppix.Core.Config.Inclusion
import Floppix.Core.Config.Process

/-! # The handlers of a server

`include` is a command of the core module and its handler is `static`, so no other
command has it. The other handlers may do what they like with the server, except that
they leave `conf_list` alone and only add modules.
-/

namespace Floppix.Configuration

variable {H C σ : Type}

def World.keys (w : World H C σ) : List (Bytes × List Bytes) := w.confList.map Directive.key

/-- The handlers of the commands other than `include`. They have a status and may change
the server; modules are added behind the others, their commands have their own handlers,
and `conf_list` is left alone. -/
structure Others (H C σ : Type) where
  run : H → Command (Handler H) → Directive → C → World (Handler H) C σ →
    Err × World (Handler H) C σ
  confList : ∀ h c d x w, (run h c d x w).2.confList = w.confList
  modules : ∀ h c d x w, ∃ ms, (run h c d x w).2.modules = w.modules ++ ms ∧
    ∀ m ∈ ms, ∀ cmd ∈ m.cmd, cmd.handler ≠ .incl

def coreHandlers (fs : FileSystem) (answers : PoolAnswers) (depth : Nat) (others : Others H C σ) :
    Handlers (Handler H) C σ
  | .incl, _, directive, _, w => handlerInclude fs answers depth directive w
  | .other h, cmd, directive, cntx, w => .ok (others.run h cmd directive cntx w)

/-- `include` is the command of the core module, and no other command has its handler. -/
structure IncludeIsCore (ms : List (Module (Handler H) C)) : Prop where
  found : findCommandInModules ms (ascii "include") = some includeCommand
  only : ∀ name cmd, findCommandInModules ms name = some cmd → cmd.handler = .incl →
    name = ascii "include"

theorem find_append (ms ms' : List (Module H C)) (name : Bytes) :
    findCommandInModules (ms ++ ms') name =
      (findCommandInModules ms name).or (findCommandInModules ms' name) := by
  induction ms with
  | nil => simp [findCommandInModules]
  | cons m ms ih =>
      simp only [List.cons_append, findCommandInModules, ih]
      cases m.cmd.find? fun c => c.name = name <;> rfl

theorem find_mem {ms : List (Module H C)} {name : Bytes} {cmd : Command H}
    (h : findCommandInModules ms name = some cmd) : ∃ m ∈ ms, cmd ∈ m.cmd := by
  induction ms with
  | nil => cases h
  | cons m ms ih =>
      simp only [findCommandInModules] at h
      split at h
      · rename_i c hc
        cases h
        exact ⟨m, List.mem_cons_self .., List.mem_of_find?_eq_some hc⟩
      · obtain ⟨m', hm', hcmd⟩ := ih h
        exact ⟨m', List.mem_cons_of_mem m hm', hcmd⟩

theorem find_name {ms : List (Module H C)} {name : Bytes} {cmd : Command H}
    (h : findCommandInModules ms name = some cmd) : cmd.name = name := by
  induction ms with
  | nil => cases h
  | cons m ms ih =>
      simp only [findCommandInModules] at h
      split at h
      · rename_i c hc
        cases h
        simpa using List.find?_some hc
      · exact ih h

theorem find_module {ms : List (Module H C)} {name : Bytes} {cmd : Command H}
    (h : findCommandInModules ms name = some cmd) :
    ∃ m, findModuleByCommand ms name = some m := by
  induction ms with
  | nil => cases h
  | cons m ms ih =>
      simp only [findCommandInModules] at h
      simp only [findModuleByCommand]
      cases hf : m.cmd.find? fun c => c.name = name with
      | some c => exact ⟨m, rfl⟩
      | none =>
          rw [hf] at h
          exact ih h

theorem IncludeIsCore.append {ms ms' : List (Module (Handler H) C)} (h : IncludeIsCore ms)
    (h' : ∀ m ∈ ms', ∀ cmd ∈ m.cmd, cmd.handler ≠ .incl) : IncludeIsCore (ms ++ ms') where
  found := by rw [find_append, h.found, Option.some_or]
  only := by
    intro name cmd hf hi
    rw [find_append] at hf
    cases hms : findCommandInModules ms name with
    | some c =>
        rw [hms, Option.some_or] at hf
        cases hf
        exact h.only name cmd hms hi
    | none =>
        rw [hms, Option.none_or] at hf
        obtain ⟨m, hm, hcmd⟩ := find_mem hf
        exact absurd hi (h' m hm cmd hcmd)

/-- The handlers of `fpx_core_cmd` besides `fpx_handler_include`. -/
inductive CoreHandler where
  | handlerImport
  | handlerListen
  | handlerLog
  | handlerFlag
  | handlerStr
  | handlerUint
deriving DecidableEq, Repr

def take1 : Nat := 0x2
def take2 : Nat := 0x4
def take3 : Nat := 0x8

def coreCmd : List (Command (Handler CoreHandler)) :=
  [includeCommand,
    ⟨ascii "import", take1, .other .handlerImport⟩,
    ⟨ascii "listen", take1, .other .handlerListen⟩,
    ⟨ascii "log", take2 ||| take3, .other .handlerLog⟩,
    ⟨ascii "daemon", take1, .other .handlerFlag⟩,
    ⟨ascii "workdir", take1, .other .handlerStr⟩,
    ⟨ascii "priority", take1, .other .handlerUint⟩,
    ⟨ascii "user", take1, .other .handlerStr⟩,
    ⟨ascii "group", take1, .other .handlerStr⟩]

def prelinkedModules (cntx : C) : List (Module (Handler CoreHandler) C) := [⟨coreCmd, cntx⟩]

theorem includeIsCore_prelinked (cntx : C) : IncludeIsCore (prelinkedModules cntx) where
  found := rfl
  only := by
    intro name cmd hf hi
    obtain ⟨m, hm, hcmd⟩ := find_mem hf
    cases List.mem_singleton.mp hm
    have hname : cmd.name = name := find_name hf
    rw [← hname]
    simp only [coreCmd, List.mem_cons, List.not_mem_nil, or_false] at hcmd
    rcases hcmd with rfl | rfl | rfl | rfl | rfl | rfl | rfl | rfl | rfl
    · rfl
    all_goals cases hi

def quietOthers : Others H C σ where
  run _ _ _ _ w := (Err.ok, w)
  confList _ _ _ _ _ := rfl
  modules _ _ _ _ w := ⟨[], (List.append_nil _).symm, by simp⟩

def startWorld (ds : List Directive) : World (Handler CoreHandler) Unit Unit where
  reading := { Reading.empty with config := ⟨ds, []⟩ }
  modules := prelinkedModules ()
  rest := ()

def includeDirective (path : Bytes) : Directive := .of (ascii "include") [path] none 1

theorem includeCommand_args {argc : Nat} :
    checkArgumentCount argc (includeCommand (H := H)) = Err.ok ↔ argc = 1 := by
  have hb : takesBounds 2 ((List.range maxTakes).zip takesBits) (0, 0) = (1, 1) := by decide
  simp only [checkArgumentCount, includeCommand, hb]
  by_cases h : argc = 1
  · simp [h]
  · simp [h, Err.configSyntax, Err.errorDomain, Err.errorDomainBase, Err.errspaceSize, Err.ok]
    omega

theorem include_handled (fs : FileSystem) (answers : PoolAnswers) (depth : Nat)
    (others : Others H C σ) {d : Directive} {w : World (Handler H) C σ}
    (h : IncludeIsCore w.modules) (hn : d.name = ascii "include") (hargc : d.argc = 1) :
    processDirective (coreHandlers fs answers depth others) d w =
        handlerInclude fs answers depth d w ∧
      checkDirective (coreHandlers fs answers depth others) d w =
        handlerInclude fs answers depth d w := by
  have hargs : checkDirectiveArguments d (includeCommand (H := H)) = Err.ok :=
    includeCommand_args.mpr hargc
  obtain ⟨m, hm⟩ := find_module h.found
  constructor
  · simp only [processDirective, hn, h.found, hargs, ne_eq, not_true, if_false, callHandler, hm]
    rfl
  · simp only [checkDirective, hn, h.found, hargs, ne_eq, not_true, if_false, callHandler, hm]
    rfl

theorem handlerInclude_globFails {fs : FileSystem} {answers : PoolAnswers} {depth : Nat}
    {d : Directive} {w : World (Handler H) C σ} {path : Bytes} (hargv : d.argv = [path])
    (hglob : GlobFails fs path) :
    handlerInclude fs answers depth d w = .error (.fault .uninit) := by
  simp [handlerInclude, hargv, readIncluded_globFails hglob]

/-- A directive that `include` takes has its path, and the handler appends what is found
there. -/
theorem handlerInclude_spec {fs : FileSystem} (depth : Nat) {d : Directive}
    (w : World (Handler H) C σ) (hargc : d.argc = 1)
    (hglob : ∀ path, d.argv = [path] → ¬ GlobFails fs path) :
    ∃ path w', d.argv = [path] ∧ handlerInclude fs plenty (depth + 1) d w =
        .ok ((included fs (depth + 1) path).1, w') ∧ w'.modules = w.modules ∧
      w'.keys = w.keys ++ (included fs (depth + 1) path).2 := by
  obtain ⟨path, hpath⟩ := List.length_eq_one_iff.mp (d.argc_eq ▸ hargc)
  obtain ⟨reading, hr, hk⟩ := (included_spec depth (hglob path hpath)).2 w.reading
  exact ⟨path, { w with reading := reading }, hpath, by simp [handlerInclude, hpath, hr], rfl, hk⟩

theorem not_globFails_of_ok {fs : FileSystem} {answers : PoolAnswers} {depth : Nat}
    {d : Directive} {w : World (Handler H) C σ} {out : Err × World (Handler H) C σ}
    (h : handlerInclude fs answers depth d w = .ok out) (path : Bytes) (hargv : d.argv = [path]) :
    ¬ GlobFails fs path := by
  intro hglob
  rw [handlerInclude_globFails hargv hglob] at h
  cases h

def IncludesFailing (fs : FileSystem) (k : Bytes × List Bytes) : Prop :=
  ∃ path, k = (ascii "include", [path]) ∧ GlobFails fs path

theorem not_globFails {fs : FileSystem} {d : Directive} (hn : d.name = ascii "include")
    (h : ¬ IncludesFailing fs d.key) (path : Bytes) (hargv : d.argv = [path]) :
    ¬ GlobFails fs path := fun hglob => h ⟨path, Prod.ext hn hargv, hglob⟩

end Floppix.Configuration
