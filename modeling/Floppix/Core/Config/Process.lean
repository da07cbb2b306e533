import Floppix.Core.Config.Include

/-! # Processing the directives

`fpx_config_process` walks `conf_list` and calls the handler of every directive;
`fpx_config_check` calls the handler of `include` only. Handlers may append to the
list they are called from, and the loops see what they append. The handlers of the
commands other than `include` are a parameter.
-/

namespace Floppix.Configuration

/-- `fpx_takes`. -/
def takesBits : List Nat := (List.range maxTakes).map fun i => 1 <<< i

structure Command (H : Type) where
  name : Bytes
  takes : Nat
  handler : H

/-- `fpx_module_t`: its command table up to the closing `NULL`, and its context. -/
structure Module (H C : Type) where
  cmd : List (Command H)
  cntx : C

/-- What the handlers work on: the configuration and the directories, the modules of
the server, and the rest of the server. -/
structure World (H C σ : Type) where
  reading : Reading
  modules : List (Module H C)
  rest : σ

variable {H C σ : Type}

def World.confList (w : World H C σ) : List Directive := w.reading.config.confList

/-- What a handler does, called with the command, the directive and the context of the
module. -/
abbrev Handlers (H C σ : Type) :=
  H → Command H → Directive → C → World H C σ → Outcome (Err × World H C σ)

def findCommandInModules : List (Module H C) → Bytes → Option (Command H)
  | [], _ => none
  | m :: rest, name =>
      match m.cmd.find? fun c => c.name = name with
      | some c => some c
      | none => findCommandInModules rest name

def findModuleByCommand : List (Module H C) → Bytes → Option (Module H C)
  | [], _ => none
  | m :: rest, name =>
      match m.cmd.find? fun c => c.name = name with
      | some _ => some m
      | none => findModuleByCommand rest name

/-- The loop of `fpx_check_directive_arguments` that finds the least and the greatest
argument count. -/
def takesBounds (takes : Nat) : List (Nat × Nat) → Nat × Nat → Nat × Nat
  | [], bounds => bounds
  | (i, bit) :: rest, (minTakes, maxTakes) =>
      if takes &&& bit ≠ 0 then
        takesBounds takes rest
          (if minTakes = 0 then i else minTakes, if maxTakes < i then i else maxTakes)
      else takesBounds takes rest (minTakes, maxTakes)

def checkArgumentCount (argc : Nat) (cmd : Command H) : Err :=
  let (minTakes, maxTakes) := takesBounds cmd.takes ((List.range maxTakes).zip takesBits) (0, 0)
  if ¬ (argc = minTakes ∨ (argc ≤ maxTakes ∧ argc ≥ minTakes)) then Err.configSyntax else Err.ok

def checkDirectiveArguments (directive : Directive) (cmd : Command H) : Err :=
  checkArgumentCount directive.argc cmd

def callHandler (handlers : Handlers H C σ) (cmd : Command H) (directive : Directive)
    (w : World H C σ) : Outcome (Err × World H C σ) :=
  match findModuleByCommand w.modules directive.name with
  | none => .ok (Err.failed, w)
  | some m => handlers cmd.handler cmd directive m.cntx w

def processDirective (handlers : Handlers H C σ) (directive : Directive) (w : World H C σ) :
    Outcome (Err × World H C σ) :=
  match findCommandInModules w.modules directive.name with
  | none => .ok (Err.configSyntax, w)
  | some cmd =>
      if checkDirectiveArguments directive cmd ≠ Err.ok then .ok (Err.configSyntax, w)
      else callHandler handlers cmd directive w

def checkDirective (handlers : Handlers H C σ) (directive : Directive) (w : World H C σ) :
    Outcome (Err × World H C σ) :=
  match findCommandInModules w.modules directive.name with
  | none => .ok (Err.configSyntax, w)
  | some cmd =>
      if checkDirectiveArguments directive cmd ≠ Err.ok then .ok (Err.configSyntax, w)
      else if directive.name ≠ ascii "include" then .ok (Err.ok, w)
      else callHandler handlers cmd directive w

/-- `fpx_list_foreach` over `conf_list` from position `i` on, with a body that may append
to it, for at most the given number of rounds. -/
def foreachDirective (body : Directive → World H C σ → Outcome (Err × World H C σ)) :
    Nat → Nat → World H C σ → Outcome (Err × World H C σ)
  | 0, _, _ => .error .fuel
  | rounds + 1, i, w =>
      match w.confList[i]? with
      | none => .ok (Err.ok, w)
      | some directive =>
          match body directive w with
          | .error halt => .error halt
          | .ok (err, w) =>
              if err ≠ Err.ok then .ok (err, w) else foreachDirective body rounds (i + 1) w

def configProcess (handlers : Handlers H C σ) (rounds : Nat) (w : World H C σ) :
    Outcome (Err × World H C σ) :=
  foreachDirective (processDirective handlers) rounds 0 w

def configCheck (handlers : Handlers H C σ) (rounds : Nat) (w : World H C σ) :
    Outcome (Err × World H C σ) :=
  foreachDirective (checkDirective handlers) rounds 0 w

/-! ## The core module -/

/-- The handlers of the core module and of others: `fpx_handler_include`, which is
`static`, and the rest. -/
inductive Handler (H : Type) where
  | incl
  | other (h : H)
deriving DecidableEq, Repr

def handlerInclude (fs : FileSystem) (answers : PoolAnswers) (depth : Nat)
    (directive : Directive) (w : World H C σ) : Outcome (Err × World H C σ) :=
  match directive.argv with
  | [] => .error (.fault .overread)
  | path :: _ =>
      match readIncluded fs answers depth path w.reading with
      | .error halt => .error halt
      | .ok (err, reading) => .ok (err, { w with reading := reading })

def includeCommand : Command (Handler H) := ⟨ascii "include", 0x2, .incl⟩

end Floppix.Configuration
