import Floppix.Core.Config.Address
import Floppix.Core.Config.Dispatch
import Floppix.Core.Config.FlagHandler
import Floppix.Core.Config.LogHandler
import Floppix.Core.Config.Takes
import Floppix.Lib.Components

/-! # The settings of a server

The handlers of the core module work on the fields of `fpx_server_t`. Here they stand
behind the entries of `fpx_core_cmd` together with `fpx_handler_include` and with what
modules that were imported bring along.
-/

namespace Floppix.Configuration

open Logging Components

/-- The fields of `fpx_server_t` that directives of the core module change. -/
structure Settings where
  daemon : Bool
  workdir : Bytes
  priority : Int
  user : Option Bytes
  group : Option Bytes
  listeners : List Listening.Listener
  logger : Sinks
  /-- history: how many sinks have been asked for -/
  asked : Nat

def corePreinit : Settings where
  daemon := true
  workdir := ascii "/"
  priority := 0
  user := none
  group := none
  listeners := []
  logger := ⟨false, []⟩
  asked := 0

theorem takeWhile_ended (bytes : Bytes) : (0 : UInt8) ∉ bytes.takeWhile fun c => c ≠ 0 := by
  intro h
  have hne := List.mem_takeWhile_imp h
  simp at hne

def argString (bytes : Bytes) : Strings.CString := ⟨bytes.takeWhile fun c => c ≠ 0, takeWhile_ended bytes⟩

/-- What the environment answers to the handlers. -/
structure HandlerOs where
  ssize : SsizeType
  /-- the allocations for the listener behind so many others -/
  pool : Nat → PoolAnswers
  /-- the adding of the sink asked for after so many others -/
  add : Nat → AddOs

/-- `fpx_handler_str`; the entries that have it are told apart by their offsets. -/
def handlerStr (name arg : Bytes) (s : Settings) : Settings :=
  if name = ascii "workdir" then { s with workdir := arg }
  else if name = ascii "user" then { s with user := some arg }
  else { s with group := some arg }

/-- The handlers of `fpx_core_cmd` that work on the settings, without their messages, for a
directive of the entry with the given name. -/
def handleSetting (os : HandlerOs) (h : CoreHandler) (name : Bytes) (d : Directive)
    (s : Settings) : Outcome (Err × Settings) :=
  match d.argv with
  | [] => .error (.fault .overread)
  | arg :: _ =>
      match h with
      | .handlerImport => .ok (Err.ok, s)
      | .handlerListen =>
          match handlerListen (os.pool s.listeners.length) arg s.listeners with
          | .error undefined => .error (.fault (.undefined undefined))
          | .ok (err, listeners) => .ok (err, { s with listeners := listeners })
      | .handlerLog =>
          match handlerLog os.ssize (os.add s.asked) s.daemon [] d.line d.argv s.logger with
          | .error undefined => .error (.fault (.undefined undefined))
          | .ok (err, logger, _) =>
              .ok (err, { s with
                logger := logger
                asked := if err = Err.ok then s.asked + 1 else s.asked })
      | .handlerFlag =>
          match handlerFlag d.name 0 (argString arg) fun _ => s.daemon with
          | .error _ => .error (.fault .overread)
          | .ok (err, data, _) => .ok (err, { s with daemon := data 0 })
      | .handlerStr => .ok (Err.ok, handlerStr name arg s)
      | .handlerUint =>
          match handlerUint os.ssize d.name 0 arg fun _ => s.priority with
          | .error undefined => .error (.fault (.undefined undefined))
          | .ok (err, data, _) => .ok (err, { s with priority := data 0 })

/-! ## What a directive means -/

/-- `on` and `off` in letters of either case. -/
def flagValue (arg : Bytes) : Option Bool :=
  if (argString arg).chars.map Strings.tolower = onText.chars.map Strings.tolower then some true
  else if (argString arg).chars.map Strings.tolower = offText.chars.map Strings.tolower then some false
  else none

def uintValue (T : SsizeType) (arg : Bytes) : Option Int :=
  match parseSize T arg with
  | .error _ => none
  | .ok size => if intType.convert size = -1 then none else some (intType.convert size)

def listenerValue (arg : Bytes) : Option Listening.Listener :=
  match parseAddrPort plenty arg with
  | .ok ⟨.ipv4, some addr, some port, _⟩ => some (listenerInit afInet addr port)
  | .ok ⟨.ipv6, some addr, some port, _⟩ => some (listenerInit afInet6 addr port)
  | _ => none

/-- The sink that an addition to an idle logger makes, if it succeeds. -/
def addedSink (out : Err × Sinks) : Option Sink := out.2.logs.head?

/-- The same for an addition that may not come to an end. -/
def addedFile (out : Except Undefined (Err × Sinks)) : Option Sink := out.toOption.bind addedSink

def sinkValue (T : SsizeType) (os : AddOs) : List Bytes → Option Sink
  | [target, prio] =>
      let level := parseLogLevel prio
      if level = logInvalidLevel ∨ target = ascii "syslog" then none
      else if target = ascii "stdout" then addedSink (addLogFd os level stdoutFd ⟨false, []⟩)
      else if target = ascii "stderr" then addedSink (addLogFd os level stderrFd ⟨false, []⟩)
      else addedFile (addLogFile os level target 0 ⟨false, []⟩)
  | [target, prio, limit] =>
      let level := parseLogLevel prio
      if level = logInvalidLevel then none
      else
        match parseSize T limit with
        | .error _ => none
        | .ok size =>
            if size = -1 then none
            else addedFile (addLogFile os level target size.toNat ⟨false, []⟩)
  | _ => none

abbrev Key := Bytes × List Bytes

def argOf (name : Bytes) (k : Key) : Option Bytes :=
  match k.2 with
  | [arg] => if k.1 = name then some arg else none
  | _ => none

def daemonOf (k : Key) : Option Bool := (argOf (ascii "daemon") k).bind flagValue

def priorityOf (T : SsizeType) (k : Key) : Option Int :=
  (argOf (ascii "priority") k).bind (uintValue T)

def userOf (k : Key) : Option (Option Bytes) := (argOf (ascii "user") k).map some

def groupOf (k : Key) : Option (Option Bytes) := (argOf (ascii "group") k).map some

def listenerOf (k : Key) : Option Listening.Listener := (argOf (ascii "listen") k).bind listenerValue

def isLog (k : Key) : Bool := k.1 = ascii "log"

def sinkOf (T : SsizeType) (os : AddOs) (k : Key) : Option Sink :=
  if isLog k then sinkValue T os k.2 else none

/-- What a directive makes of the settings: it overwrites a field, or it adds to a list. -/
def Settings.apply (os : HandlerOs) (k : Key) (s : Settings) : Settings where
  daemon := (daemonOf k).getD s.daemon
  workdir := (argOf (ascii "workdir") k).getD s.workdir
  priority := (priorityOf os.ssize k).getD s.priority
  user := (userOf k).getD s.user
  group := (groupOf k).getD s.group
  listeners := s.listeners ++ (listenerOf k).toList
  logger := { s.logger with logs := s.logger.logs ++ (sinkOf os.ssize (os.add s.asked) k).toList }
  asked := s.asked + (isLog k).toNat

/-! ## The handlers do what the directives mean -/

variable {os : HandlerOs} {d : Directive} {s : Settings} {arg : Bytes}

theorem argOf_of_ne {name : Bytes} (h : d.name ≠ name) : argOf name d.key = none := by
  unfold argOf
  split
  · exact if_neg h
  · rfl

def settingNames : List Bytes :=
  [ascii "listen", ascii "log", ascii "daemon", ascii "workdir", ascii "priority", ascii "user",
    ascii "group"]

theorem apply_of_ne (h : d.name ∉ settingNames) : s.apply os d.key = s := by
  have hne {name : Bytes} (hname : name ∈ settingNames) : d.name ≠ name :=
    fun heq => h (heq ▸ hname)
  have hother (name : Bytes) (hname : name ∈ settingNames) : argOf name d.key = none :=
    argOf_of_ne (hne hname)
  have hisLog : isLog d.key = false := decide_eq_false (hne (by decide))
  simp [Settings.apply, daemonOf, priorityOf, userOf, groupOf, listenerOf, sinkOf, hisLog,
    hother (ascii "daemon") (by decide), hother (ascii "workdir") (by decide),
    hother (ascii "priority") (by decide), hother (ascii "user") (by decide),
    hother (ascii "group") (by decide), hother (ascii "listen") (by decide)]

/-- A handler makes of the settings what its directive means, or it fails and leaves them. -/
def DoesApply (os : HandlerOs) (d : Directive) (s : Settings) (out : Outcome (Err × Settings)) :
    Prop :=
  ∀ err s', out = .ok (err, s') → s' = if err = Err.ok then s.apply os d.key else s

theorem setting_daemon (hn : d.name = ascii "daemon") (ha : d.argv = [arg]) :
    DoesApply os d s (handleSetting os .handlerFlag (ascii "daemon") d s) := by
  have happly : s.apply os d.key = { s with daemon := (flagValue arg).getD s.daemon } := by
    simp +decide [Settings.apply, daemonOf, priorityOf, userOf, groupOf, listenerOf, sinkOf, isLog,
      Directive.key, argOf, ha, hn]
  intro err s' hout
  rw [happly]
  simp only [handleSetting, ha] at hout
  by_cases hon : SameUpToCase (argString arg) onText
  · rw [handlerFlag_on hon] at hout
    cases hout
    have hvalue : flagValue arg = some true := if_pos hon
    rw [hvalue]
    rfl
  · by_cases hoff : SameUpToCase (argString arg) offText
    · rw [handlerFlag_off hoff] at hout
      cases hout
      have hvalue : flagValue arg = some false := (if_neg hon).trans (if_pos hoff)
      rw [hvalue]
      rfl
    · rw [handlerFlag_other hon hoff] at hout
      cases hout
      rw [if_neg Err.configSyntax_ne_ok]

theorem setting_priority (hn : d.name = ascii "priority") (ha : d.argv = [arg]) :
    DoesApply os d s (handleSetting os .handlerUint (ascii "priority") d s) := by
  have happly : s.apply os d.key = { s with priority := (uintValue os.ssize arg).getD s.priority } := by
    simp +decide [Settings.apply, daemonOf, priorityOf, userOf, groupOf, listenerOf, sinkOf, isLog,
      Directive.key, argOf, ha, hn]
  intro err s' hout
  rw [happly]
  simp only [handleSetting, ha] at hout
  cases hparse : parseSize os.ssize arg with
  | error undefined =>
      simp only [handlerUint, handlerNumber, hparse, Bind.bind, Except.bind] at hout
      cases hout
  | ok size =>
      rw [handlerUint, handlerNumber_eq hparse] at hout
      by_cases hminus : intType.convert size = -1
      · rw [if_pos hminus] at hout
        cases hout
        rw [if_neg Err.configSyntax_ne_ok]
      · rw [if_neg hminus] at hout
        cases hout
        have hvalue : uintValue os.ssize arg = some (intType.convert size) := by
          simp only [uintValue, hparse, if_neg hminus]
        rw [hvalue]
        rfl

theorem setting_str {name : Bytes} (hn : d.name = name) (ha : d.argv = [arg])
    (hname : name = ascii "workdir" ∨ name = ascii "user" ∨ name = ascii "group") :
    DoesApply os d s (handleSetting os .handlerStr name d s) := by
  intro err s' hout
  simp only [handleSetting, ha] at hout
  cases hout
  rcases hname with rfl | rfl | rfl <;>
    simp +decide [Settings.apply, handlerStr, daemonOf, priorityOf, userOf, groupOf, listenerOf,
      sinkOf, isLog, Directive.key, argOf, ha, hn]

/-! ## Listeners -/

section

variable {answers : PoolAnswers} {used : Nat} {bytes b str : Bytes} {out : AddrPort}

/-- What comes out where the allocations in question succeed comes out of a pool that never
runs out. -/
theorem pallocCopy_granted (h : pallocCopy answers used bytes = .ok b) :
    pallocCopy plenty used bytes = .ok b := by
  unfold pallocCopy at h
  split at h
  · cases h
  · exact h

theorem portOnly_granted (h : portOnly answers str = .ok out) :
    portOnly plenty str = .ok out := by
  unfold portOnly at h ⊢
  cases hnumber : atoi str str.length with
  | error undefined =>
      rw [hnumber] at h
      cases h
  | ok n =>
      simp only [hnumber, Bind.bind, Except.bind] at h ⊢
      split at h
      · rename_i hrange
        rw [if_pos hrange]
        exact h
      · rename_i hrange
        rw [if_neg hrange]
        cases hcopy : pallocCopy answers 0 str with
        | error undefined =>
            rw [hcopy] at h
            cases h
        | ok port =>
            rw [hcopy] at h
            rw [pallocCopy_granted hcopy]
            exact h

theorem takePort_granted {after : Nat} {taken : AddrPort ⊕ Option Bytes × Nat × Nat}
    (h : takePort answers str after = .ok taken) : takePort plenty str after = .ok taken := by
  unfold takePort at h ⊢
  split at h
  · rename_i hcolon
    rw [if_pos hcolon]
    split at h
    · rename_i hfront
      rw [if_pos hfront]
      exact h
    · rename_i hfront
      rw [if_neg hfront]
      cases hnumber : atoi (str.drop after) (str.length - after) with
      | error undefined =>
          rw [hnumber] at h
          cases h
      | ok n =>
          simp only [hnumber, Bind.bind, Except.bind] at h ⊢
          split at h
          · rename_i hrange
            rw [if_pos hrange]
            exact h
          · rename_i hrange
            rw [if_neg hrange]
            cases hcopy : pallocCopy answers 0 (str.drop after) with
            | error undefined =>
                rw [hcopy] at h
                cases h
            | ok port =>
                rw [hcopy] at h
                rw [pallocCopy_granted hcopy]
                exact h
  · rename_i hcolon
    rw [if_neg hcolon]
    exact h

theorem takeAddr_granted {port : Option Bytes} {stop : Nat}
    (h : takeAddr answers str port stop used = .ok out) :
    takeAddr plenty str port stop used = .ok out := by
  have hcopied {type : AddrType} {addr : Bytes}
      (h : (do let addr ← pallocCopy answers used addr
               .ok ⟨type, some addr, port, []⟩ : Except Undefined AddrPort) = .ok out) :
      (do let addr ← pallocCopy plenty used addr
          .ok ⟨type, some addr, port, []⟩ : Except Undefined AddrPort) = .ok out := by
    cases hcopy : pallocCopy answers used addr with
    | error undefined =>
        rw [hcopy] at h
        cases h
    | ok copied =>
        rw [hcopy] at h
        rw [pallocCopy_granted hcopy]
        exact h
  unfold takeAddr at h ⊢
  simp only at h ⊢
  split at h
  · rename_i hopen
    rw [if_pos hopen]
    split at h
    · exact h
    · split at h
      · rename_i hlast
        rw [if_pos hlast]
        exact h
      · rename_i hlast
        rw [if_neg hlast]
        exact hcopied h
  · rename_i hopen
    rw [if_neg hopen]
    split at h
    · rename_i hclose
      rw [if_pos hclose]
      exact h
    · rename_i hclose
      rw [if_neg hclose]
      exact hcopied h

theorem parseAddrPort_granted (h : parseAddrPort answers str = .ok out) :
    parseAddrPort plenty str = .ok out := by
  unfold parseAddrPort at h ⊢
  simp only at h ⊢
  split at h
  · rename_i hdigits
    rw [if_pos hdigits]
    exact portOnly_granted h
  · rename_i hdigits
    rw [if_neg hdigits]
    cases htaken : takePort answers str (scanDigits str str.length) with
    | error undefined =>
        rw [htaken] at h
        cases h
    | ok taken =>
        rw [htaken] at h
        rw [takePort_granted htaken]
        cases taken with
        | inl out => exact h
        | inr rest => exact takeAddr_granted h

end

theorem setting_listen (hn : d.name = ascii "listen") (ha : d.argv = [arg]) :
    DoesApply os d s (handleSetting os .handlerListen (ascii "listen") d s) := by
  have happly : s.apply os d.key = { s with listeners := s.listeners ++ (listenerValue arg).toList } := by
    simp +decide [Settings.apply, daemonOf, priorityOf, userOf, groupOf, listenerOf, sinkOf, isLog,
      Directive.key, argOf, ha, hn]
  intro err s' hout
  rw [happly]
  simp only [handleSetting, ha, handlerListen] at hout
  cases hfirst : os.pool s.listeners.length 0 with
  | some e =>
      simp only [hfirst] at hout
      cases hout
      rw [if_neg e.code_ne_ok]
  | none =>
      cases hparse : parseAddrPort (fun n => os.pool s.listeners.length (n + 1)) arg with
      | error undefined =>
          simp only [hfirst, hparse, Bind.bind, Except.bind] at hout
          cases hout
      | ok out =>
          have hplenty := parseAddrPort_granted hparse
          obtain ⟨rv, addr, port, logged⟩ := out
          simp only [hfirst, hparse, Bind.bind, Except.bind] at hout
          cases rv with
          | invalid =>
              cases hout
              rw [if_neg Err.configSyntax_ne_ok]
          | ipv4 =>
              cases addr with
              | none => cases hout
              | some addr =>
                  cases port with
                  | none => cases hout
                  | some port =>
                      cases hout
                      have hvalue : listenerValue arg = some (listenerInit afInet addr port) := by
                        rw [listenerValue, hplenty]
                      rw [hvalue]
                      rfl
          | ipv6 =>
              cases addr with
              | none => cases hout
              | some addr =>
                  cases port with
                  | none => cases hout
                  | some port =>
                      cases hout
                      have hvalue : listenerValue arg = some (listenerInit afInet6 addr port) := by
                        rw [listenerValue, hplenty]
                      rw [hvalue]
                      rfl

/-! ## Sinks -/

theorem addLogFd_idle (add : AddOs) (level fd : Nat) {logger : Sinks}
    (hidle : logger.running = false) :
    (addLogFd add level fd logger).2 = { logger with
      logs := logger.logs ++ (addedSink (addLogFd add level fd ⟨false, []⟩)).toList } := by
  obtain ⟨running, logs⟩ := logger
  cases hidle
  unfold addLogFd
  cases add.pallocLog with
  | some e => simp [addedSink]
  | none =>
      cases add.pallocFile with
      | some e => simp [addedSink]
      | none => simp [addedSink, Sinks.push]

theorem addLogFile_idle {add : AddOs} {level size : Nat} {fname : Bytes} {logger : Sinks}
    {out : Err × Sinks} (hidle : logger.running = false)
    (h : addLogFile add level fname size logger = .ok out) :
    out.2 = { logger with
      logs := logger.logs ++ (addedFile (addLogFile add level fname size ⟨false, []⟩)).toList } := by
  obtain ⟨running, logs⟩ := logger
  cases hidle
  unfold addLogFile at h ⊢
  cases hadd : loggerAddLogFile add false level size with
  | error failure =>
      rw [hadd] at h
      cases failure with
      | undefined undefined => cases h
      | status err =>
          cases h
          simp [addedFile, addedSink, Except.toOption]
  | ok log =>
      rw [hadd] at h
      cases h
      simp [addedFile, addedSink, Sinks.push, Except.toOption]

theorem apply_log (hn : d.name = ascii "log") : s.apply os d.key = { s with
    logger := { s.logger with
      logs := s.logger.logs ++ (sinkValue os.ssize (os.add s.asked) d.argv).toList }
    asked := s.asked + 1 } := by
  have hother {name : Bytes} (h : ascii "log" ≠ name) : argOf name d.key = none :=
    argOf_of_ne (hn ▸ h)
  have hisLog : isLog d.key = true := decide_eq_true hn
  have hsink : sinkOf os.ssize (os.add s.asked) d.key =
      sinkValue os.ssize (os.add s.asked) d.argv := if_pos hisLog
  rw [Settings.apply, daemonOf, priorityOf, userOf, groupOf, listenerOf, hsink,
    hother (by decide), hother (by decide), hother (by decide), hother (by decide),
    hother (by decide), hother (by decide), hisLog]
  simp

def Sinks.with (logger : Sinks) (sink : Option Sink) : Sinks :=
  { logger with logs := logger.logs ++ sink.toList }

theorem Sinks.with_none (logger : Sinks) : Sinks.with logger none = logger := by
  rw [Sinks.with, Option.toList_none, List.append_nil]

section

variable {T : SsizeType} {add : AddOs} {daemon : Bool} {line : Nat} {target prio limit : Bytes}
  {filename : Bytes} {logger : Sinks}

theorem handlerLog_unknown {rest : List Bytes} (h : parseLogLevel prio = logInvalidLevel) :
    handlerLog T add daemon filename line (target :: prio :: rest) logger =
      .ok (Err.configSyntax, logger, [unknownLevel filename line prio]) := by
  simp only [handlerLog, List.getD_cons_succ, List.getD_cons_zero, h, if_true]

/-- A directive that names a standard stream, a file or the system log, if it comes to an end. -/
theorem handlerLog_target {out : Err × Sinks × List Bytes} (hidle : logger.running = false)
    (hlevel : parseLogLevel prio ≠ logInvalidLevel)
    (h : handlerLog T add daemon filename line [target, prio] logger = .ok out) :
    out.1 = Err.ok ∧ out.2.1 = Sinks.with logger (sinkValue T add [target, prio]) := by
  have hlen : [target, prio].length = 2 := rfl
  have hthree : ¬ (2 = 3) := by decide
  have hfirst : [target, prio].getD 0 [] = target := rfl
  have hsecond : [target, prio].getD 1 [] = prio := rfl
  simp only [handlerLog, hlen, hfirst, hsecond, if_neg hlevel, true_and, if_neg hthree] at h
  by_cases hout : target = ascii "stdout"
  · have hvalue : sinkValue T add [target, prio] =
        addedSink (addLogFd add (parseLogLevel prio) stdoutFd ⟨false, []⟩) := by
      simp +decide [sinkValue, hlevel, hout]
    rw [if_pos hout] at h
    cases h
    rw [hvalue]
    exact ⟨rfl, addLogFd_idle _ _ _ hidle⟩
  · rw [if_neg hout] at h
    by_cases herr : target = ascii "stderr"
    · have hvalue : sinkValue T add [target, prio] =
          addedSink (addLogFd add (parseLogLevel prio) stderrFd ⟨false, []⟩) := by
        simp +decide [sinkValue, hlevel, herr]
      rw [if_pos herr] at h
      cases h
      rw [hvalue]
      exact ⟨rfl, addLogFd_idle _ _ _ hidle⟩
    · rw [if_neg herr] at h
      by_cases hsys : target = ascii "syslog"
      · have hvalue : sinkValue T add [target, prio] = none := by
          simp [sinkValue, hsys]
        rw [if_pos hsys] at h
        cases h
        rw [hvalue, Sinks.with_none]
        exact ⟨rfl, rfl⟩
      · have hvalue : sinkValue T add [target, prio] =
            addedFile (addLogFile add (parseLogLevel prio) target 0 ⟨false, []⟩) := by
          simp [sinkValue, hlevel, hout, herr, hsys]
        rw [if_neg hsys, if_pos trivial] at h
        cases hadd : addLogFile add (parseLogLevel prio) target 0 logger with
        | error undefined =>
            rw [hadd] at h
            cases h
        | ok added =>
            rw [hadd] at h
            cases h
            rw [hvalue]
            exact ⟨rfl, addLogFile_idle hidle hadd⟩

theorem handlerLog_limit {out : Err × Sinks × List Bytes} (hidle : logger.running = false)
    (hlevel : parseLogLevel prio ≠ logInvalidLevel) {size : Int}
    (hparse : parseSize T limit = .ok size)
    (h : handlerLog T add daemon filename line [target, prio, limit] logger = .ok out) :
    out.1 = (if size = -1 then Err.configSyntax else Err.ok) ∧
      out.2.1 = Sinks.with logger (sinkValue T add [target, prio, limit]) := by
  have hlen : [target, prio, limit].length = 3 := rfl
  have hfirst : [target, prio, limit].getD 0 [] = target := rfl
  have hsecond : [target, prio, limit].getD 1 [] = prio := rfl
  have hthird : [target, prio, limit].getD 2 [] = limit := rfl
  have hnot : ¬ (3 : Nat) = 2 := by decide
  simp only [handlerLog, hlen, hfirst, hsecond, hthird, if_neg hlevel, hnot, false_and, if_false,
    if_true, hparse, sinkValue, Bind.bind, Except.bind] at h ⊢
  by_cases hminus : size = -1
  · simp only [hminus, if_true] at h
    cases h
    exact ⟨(if_pos hminus).symm, by rw [if_pos hminus, Sinks.with_none]⟩
  · simp only [if_neg hminus] at h ⊢
    cases hadd : addLogFile add (parseLogLevel prio) target size.toNat logger with
    | error undefined =>
        rw [hadd] at h
        cases h
    | ok added =>
        rw [hadd] at h
        cases h
        exact ⟨rfl, addLogFile_idle hidle hadd⟩

theorem handlerLog_undefined (hlevel : parseLogLevel prio ≠ logInvalidLevel)
    {undefined : Undefined} (hparse : parseSize T limit = .error undefined) :
    handlerLog T add daemon filename line [target, prio, limit] logger = .error undefined := by
  have hlen : [target, prio, limit].length = 3 := rfl
  have hsecond : [target, prio, limit].getD 1 [] = prio := rfl
  have hthird : [target, prio, limit].getD 2 [] = limit := rfl
  have hnot : ¬ (3 : Nat) = 2 := by decide
  simp only [handlerLog, hlen, hsecond, hthird, if_neg hlevel, hnot, false_and, if_false, if_true,
    hparse, Bind.bind, Except.bind]

theorem handlerLog_ends (hnode : add.pallocCleanup = none)
    (hlevel : parseLogLevel prio ≠ logInvalidLevel) :
    (∃ out, handlerLog T add daemon filename line [target, prio] logger = .ok out) ∧
      ∀ size, parseSize T limit = .ok size →
        ∃ out, handlerLog T add daemon filename line [target, prio, limit] logger = .ok out := by
  have hadds (level size : Nat) :
      ∃ out, addLogFile add level target size logger = .ok out := by
    obtain ⟨out, hout, -⟩ :=
      addLogFile_adds add level size logger target fun hno => hno.refused hnode
    exact ⟨out, hout⟩
  constructor
  · obtain ⟨added, hadd⟩ := hadds (parseLogLevel prio) 0
    simp only [handlerLog, List.length_cons, List.length_nil, List.getD_cons_zero,
      List.getD_cons_succ, if_neg hlevel, hadd]
    split_ifs <;> exact ⟨_, rfl⟩
  · intro size hparse
    obtain ⟨added, hadd⟩ := hadds (parseLogLevel prio) size.toNat
    simp only [handlerLog, List.length_cons, List.length_nil, List.getD_cons_zero,
      List.getD_cons_succ, if_neg hlevel, hparse]
    by_cases hminus : size = -1
    · simp [hminus, Bind.bind, Except.bind]
    · simp [hminus, hadd, Bind.bind, Except.bind]

end

theorem setting_log (hidle : s.logger.running = false) (hn : d.name = ascii "log")
    (ha : d.argc = 2 ∨ d.argc = 3) :
    DoesApply os d s (handleSetting os .handlerLog (ascii "log") d s) := by
  rw [d.argc_eq] at ha
  have htwo : 2 ≤ d.argv.length := by omega
  obtain ⟨target, prio, rest, hargv⟩ : ∃ target prio rest, d.argv = target :: prio :: rest := by
    match hargv : d.argv, htwo with
    | target :: prio :: rest, _ => exact ⟨target, prio, rest, rfl⟩
  intro err s' hout
  rw [apply_log hn, hargv]
  simp only [handleSetting, hargv] at hout
  by_cases hlevel : parseLogLevel prio = logInvalidLevel
  · simp only [handlerLog_unknown hlevel] at hout
    cases hout
    simp only [if_neg Err.configSyntax_ne_ok]
  · cases rest with
    | nil =>
        cases hlog : handlerLog os.ssize (os.add s.asked) s.daemon [] d.line [target, prio]
            s.logger with
        | error undefined =>
            rw [hlog] at hout
            cases hout
        | ok out =>
            obtain ⟨err', logger, logged⟩ := out
            obtain ⟨rfl, rfl⟩ := handlerLog_target hidle hlevel hlog
            rw [hlog] at hout
            cases hout
            rfl
    | cons limit rest =>
        have hrest : rest = [] := by
          rw [hargv] at ha
          simp only [List.length_cons] at ha
          exact List.eq_nil_of_length_eq_zero (by omega)
        rw [hrest] at hout ⊢
        cases hparse : parseSize os.ssize limit with
        | error undefined =>
            simp only [handlerLog_undefined hlevel hparse] at hout
            cases hout
        | ok size =>
            cases hlog : handlerLog os.ssize (os.add s.asked) s.daemon [] d.line
                [target, prio, limit] s.logger with
            | error undefined =>
                rw [hlog] at hout
                cases hout
            | ok out =>
                obtain ⟨err', logger, logged⟩ := out
                obtain ⟨rfl, rfl⟩ := handlerLog_limit hidle hlevel hparse hlog
                rw [hlog] at hout
                cases hout
                by_cases hminus : size = -1
                · have hvalue :
                      sinkValue os.ssize (os.add s.asked) [target, prio, limit] = none := by
                    simp only [sinkValue, if_neg hlevel, hparse, if_pos hminus]
                  rw [if_pos hminus, if_neg Err.configSyntax_ne_ok, if_neg Err.configSyntax_ne_ok,
                    hvalue, Sinks.with_none]
                · rw [if_neg hminus, if_pos rfl, if_pos rfl]
                  rfl

end Floppix.Configuration
