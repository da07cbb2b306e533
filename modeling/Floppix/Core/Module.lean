import Floppix.Core.Config.Dispatch
import Floppix.Lib.Pass

/-! # The modules of a server

Modules are plugged at the tail of `server->modules` and never leave it.
`fpx_preinit_modules` and `fpx_init_modules` go through the list and end at the first
module that has been through the callback already. What callbacks do with the rest of
the server is up to them.
-/

namespace Floppix.Modules

open Floppix.Configuration (Command)

/-- What the author of a module writes into `fpx_module_t`. A callback that is `NULL` is
`none`, and `preinit` returns `NULL` as `none`. -/
structure Declaration (H C σ : Type) where
  name : Bytes
  cmd : List (Command H)
  preinit : Option (σ → Option C × σ)
  init : Option (Option C → σ → Err × σ)

structure Module (H C σ : Type) extends Declaration H C σ where
  cntx : Option C
  preinited : Bool
  inited : Bool
  /-- history: what the calls of `preinit` have returned -/
  preinits : List (Option C)
  /-- history: the contexts the calls of `init` were given, and their statuses -/
  inits : List (Option C × Err)

/-- A module with `FPX_MODULE_RUN_TIME_PART`. -/
def Declaration.load {H C σ : Type} (d : Declaration H C σ) : Module H C σ where
  toDeclaration := d
  cntx := none
  preinited := false
  inited := false
  preinits := []
  inits := []

structure Server (H C σ : Type) where
  modules : List (Module H C σ)
  rest : σ

variable {H C σ : Type}

/-! ## Plugging -/

def addModule (s : Server H C σ) (m : Module H C σ) : Err × Server H C σ :=
  if s.modules.any fun other => other.name = m.name then (Err.failed, s)
  else (Err.ok, { s with modules := s.modules ++ [m] })

def setupPrelinkedModules (s : Server H C σ) : List (Declaration H C σ) → Err × Server H C σ
  | [] => (Err.ok, s)
  | d :: rest =>
      let (err, s) := addModule s d.load
      if err ≠ Err.ok then (err, s) else setupPrelinkedModules s rest

/-- The shared objects: whether `fpx_dlopen` succeeds, and what `fpx_dlsym` finds under
`fpx_module`. -/
structure Dso (H C σ : Type) where
  dlopen : Bytes → Bool
  dlsym : Bytes → Option (Declaration H C σ)

/-- `fpx_load_module`: the status it leaves in `errno`, or the server with the module. -/
def loadModule (dso : Dso H C σ) (s : Server H C σ) (fname : Bytes) :
    Except Err (Server H C σ) :=
  if checkAbsolutePath fname ≠ Err.ok then .error (checkAbsolutePath fname)
  else if !dso.dlopen fname then .error Err.failed
  else
    match dso.dlsym fname with
    | none => .error Err.failed
    | some d =>
        let (err, s) := addModule s d.load
        if err ≠ Err.ok then .error err else .ok s

/-! ## The two passes -/

def preinitModule (cntx : Option C) (m : Module H C σ) (rest : σ) :
    Except (Err × Module H C σ × σ) (Option C × Module H C σ × σ) :=
  match m.preinit with
  | none => .ok (cntx, { m with cntx := cntx, preinited := true }, rest)
  | some preinit =>
      match preinit rest with
      | (none, rest) => .error (Err.failed, { m with preinits := m.preinits ++ [none] }, rest)
      | (some c, rest) =>
          .ok (some c, { m with
            cntx := some c
            preinited := true
            preinits := m.preinits ++ [some c] }, rest)

def preinitModules (s : Server H C σ) : Err × Server H C σ :=
  let (status, modules, rest) := Pass.pass Module.preinited preinitModule none s.modules s.rest
  (status.getD Err.ok, ⟨modules, rest⟩)

def initModule (err : Err) (m : Module H C σ) (rest : σ) :
    Except (Err × Module H C σ × σ) (Err × Module H C σ × σ) :=
  let (err, m, rest) :=
    match m.init with
    | none => (err, m, rest)
    | some init =>
        let (err, rest) := init m.cntx rest
        (err, { m with inits := m.inits ++ [(m.cntx, err)] }, rest)
  if err ≠ Err.ok then .error (Err.failed, m, rest)
  else .ok (err, { m with inited := true }, rest)

/-- `fpx_init_modules`, with the value its local `err` happens to have at first. -/
def initModules (junk : Err) (s : Server H C σ) : Err × Server H C σ :=
  let (status, modules, rest) := Pass.pass Module.inited initModule junk s.modules s.rest
  (status.getD Err.ok, ⟨modules, rest⟩)

def handlerImport (dso : Dso H C σ) (s : Server H C σ) (fname : Bytes) : Err × Server H C σ :=
  match loadModule dso s fname with
  | .error err => (err, s)
  | .ok s => preinitModules s

def Module.table (m : Module H C σ) : Configuration.Module H (Option C) := ⟨m.cmd, m.cntx⟩

/-! ## What one attempt does -/

theorem preinitModule_ok {cntx cntx' : Option C} {m m' : Module H C σ} {rest rest' : σ}
    (h : preinitModule cntx m rest = .ok (cntx', m', rest')) :
    (m.preinit = none ∧ m' = { m with cntx := cntx, preinited := true }) ∨
      ∃ c, m.preinit ≠ none ∧ m' = { m with
        cntx := some c
        preinited := true
        preinits := m.preinits ++ [some c] } := by
  unfold preinitModule at h
  split at h
  · rename_i hnone
    cases h
    exact Or.inl ⟨hnone, rfl⟩
  · rename_i hsome
    split at h
    · cases h
    · cases h
      exact Or.inr ⟨_, by simp [hsome], rfl⟩

theorem preinitModule_error {cntx : Option C} {m m' : Module H C σ} {rest rest' : σ} {err : Err}
    (h : preinitModule cntx m rest = .error (err, m', rest')) :
    err = Err.failed ∧ m.preinit ≠ none ∧ m' = { m with preinits := m.preinits ++ [none] } := by
  unfold preinitModule at h
  split at h
  · cases h
  · rename_i hsome
    split at h
    · cases h
      exact ⟨rfl, by simp [hsome], rfl⟩
    · cases h

theorem initModule_ok {err err' : Err} {m m' : Module H C σ} {rest rest' : σ}
    (h : initModule err m rest = .ok (err', m', rest')) :
    err' = Err.ok ∧ ((m.init = none ∧ err = Err.ok ∧ m' = { m with inited := true }) ∨
      (m.init ≠ none ∧ m' = { m with
        inits := m.inits ++ [(m.cntx, Err.ok)]
        inited := true })) := by
  unfold initModule at h
  cases hi : m.init with
  | none =>
      simp only [hi] at h
      split at h
      · cases h
      · rename_i herr
        cases h
        exact ⟨not_not.mp herr, Or.inl ⟨rfl, not_not.mp herr, rfl⟩⟩
  | some init =>
      simp only [hi] at h
      split at h
      · cases h
      · rename_i herr
        cases h
        have hok := not_not.mp herr
        exact ⟨hok, Or.inr ⟨by simp, by rw [hok]⟩⟩

theorem initModule_error {err err' : Err} {m m' : Module H C σ} {rest rest' : σ}
    (h : initModule err m rest = .error (err', m', rest')) :
    err' = Err.failed ∧ (m' = m ∨ ∃ e, m.init ≠ none ∧ e ≠ Err.ok ∧
      m' = { m with inits := m.inits ++ [(m.cntx, e)] }) := by
  unfold initModule at h
  cases hi : m.init with
  | none =>
      simp only [hi] at h
      split at h
      · cases h
        exact ⟨rfl, Or.inl rfl⟩
      · cases h
  | some init =>
      simp only [hi] at h
      split at h
      · rename_i herr
        cases h
        exact ⟨rfl, Or.inr ⟨_, by simp, herr, rfl⟩⟩
      · cases h

end Floppix.Modules
