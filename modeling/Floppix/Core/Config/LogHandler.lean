import Floppix.Core.Config.Size
import Floppix.Core.Log.Sinks

/-! # The log directive

`fpx_handler_log` chooses between two constructors of sinks by the name of the target and by
the number of arguments. It does not look at what they return. Where a log file is open and its
cleanup gets no node, it does not return at all.
-/

namespace Floppix.Configuration

open Logging

/-! ## The handler -/

def logInvalidLevel : Nat := 5

def logPrios : List Bytes := (List.range logInvalidLevel).map logPrio

def parseLogLevel (str : Bytes) : Nat :=
  (logPrios.findIdx? fun prio => str = prio).getD logInvalidLevel

def stdoutFd : Nat := 1
def stderrFd : Nat := 2

def unknownLevel (filename : Bytes) (line : Nat) (arg : Bytes) : Bytes :=
  filename ++ ascii ":" ++ Logging.decimal line ++ ascii ": \"" ++ arg ++
    ascii "\" is unknown log level"

def invalidLimit (filename : Bytes) (line : Nat) (arg : Bytes) : Bytes :=
  filename ++ ascii ":" ++ Logging.decimal line ++ ascii ": Invalid argument \"" ++ arg ++
    ascii "\" in log directive"

def daemonWarning (daemon : Bool) (target : Bytes) : List Bytes :=
  if daemon then [target ++ ascii " is not available in daemon mode"] else []

/-- `fpx_handler_log` for a directive of a file: the status, the logger, and what was logged. -/
def handlerLog (T : SsizeType) (os : AddOs) (daemon : Bool) (filename : Bytes) (line : Nat)
    (argv : List Bytes) (logger : Sinks) : Except Undefined (Err × Sinks × List Bytes) :=
  let argc := argv.length
  let level := parseLogLevel (argv.getD 1 [])
  if level = logInvalidLevel then
    .ok (Err.configSyntax, logger, [unknownLevel filename line (argv.getD 1 [])])
  else if argc = 2 ∧ argv.getD 0 [] = ascii "stdout" then
    .ok (Err.ok, (addLogFd os level stdoutFd logger).2, daemonWarning daemon (ascii "stdout"))
  else do
    let (logger, logged) ←
      if argc = 2 ∧ argv.getD 0 [] = ascii "stderr" then
        .ok ((addLogFd os level stderrFd logger).2, daemonWarning daemon (ascii "stderr"))
      else if argc = 2 ∧ argv.getD 0 [] = ascii "syslog" then
        .ok (logger, [ascii "Syslog is not available now"])
      else if argc = 2 then
        (addLogFile os level (argv.getD 0 []) 0 logger).map fun out => (out.2, [])
      else .ok (logger, [])
    if argc = 3 then
      let size ← parseSize T (argv.getD 2 [])
      if size = -1 then
        .ok (Err.configSyntax, logger, logged ++ [invalidLimit filename line (argv.getD 2 [])])
      else
        let out ← addLogFile os level (argv.getD 0 []) size.toNat logger
        .ok (Err.ok, out.2, logged)
    else .ok (Err.ok, logger, logged)

/-! ## Levels -/

theorem parseLogLevel_cases (str : Bytes) :
    (parseLogLevel str < logInvalidLevel ∧ logPrio (parseLogLevel str) = str) ∨
      (parseLogLevel str = logInvalidLevel ∧ str ∉ logPrios) := by
  cases h : logPrios.findIdx? (fun prio => str = prio) with
  | none =>
      right
      constructor
      · rw [parseLogLevel, h, Option.getD_none]
      · intro hmem
        have hne := List.findIdx?_eq_none_iff.mp h str hmem
        exact absurd rfl (decide_eq_false_iff_not.mp hne)
  | some level =>
      left
      obtain ⟨hlt, heq, -⟩ := List.findIdx?_eq_some_iff_getElem.mp h
      rw [parseLogLevel, h, Option.getD_some]
      constructor
      · simpa [logPrios] using hlt
      · have hstr : str = logPrios[level] := of_decide_eq_true heq
        rw [hstr]
        simp [logPrios]

theorem parseLogLevel_known {str : Bytes} (h : parseLogLevel str ≠ logInvalidLevel) :
    logPrio (parseLogLevel str) = str := by
  rcases parseLogLevel_cases str with hknown | hunknown
  · exact hknown.2
  · exact absurd hunknown.1 h

theorem parseLogLevel_unknown_iff {str : Bytes} :
    parseLogLevel str = logInvalidLevel ↔ str ∉ logPrios := by
  rcases parseLogLevel_cases str with hknown | hunknown
  · constructor
    · intro h
      exact absurd h (Nat.ne_of_lt hknown.1)
    · intro h
      apply absurd _ h
      rw [logPrios, List.mem_map]
      exact ⟨_, List.mem_range.mpr hknown.1, hknown.2⟩
  · exact iff_of_true hunknown.1 hunknown.2

/-! ## What the directive asks for -/

/-- The documented case in which there is no sink. -/
def IsSyslog (argv : List Bytes) : Prop := argv.length = 2 ∧ argv.getD 0 [] = ascii "syslog"

def IsStream (argv : List Bytes) : Prop :=
  argv.length = 2 ∧ (argv.getD 0 [] = ascii "stdout" ∨ argv.getD 0 [] = ascii "stderr")

/-- A sink as the arguments ask for it. -/
structure AskedFor (argv : List Bytes) (sink : Sink) : Prop where
  level : logPrio sink.level = argv.getD 1 []
  size : argv.length = 3 → Denotes (argv.getD 2 []) sink.size

/-- With success the list has just one sink more, and it is the one asked for; otherwise the
list is as it was. -/
structure TakesEffect (argv : List Bytes) (logger : Sinks) (err : Err) (logger' : Sinks) :
    Prop where
  ok : err = Err.ok → (IsSyslog argv ∧ logger'.logs = logger.logs) ∨
    ∃ sink, logger'.logs = logger.logs ++ [sink] ∧ AskedFor argv sink
  failed : err ≠ Err.ok → logger'.logs = logger.logs

variable {T : SsizeType} {os : AddOs} {daemon : Bool} {filename : Bytes} {line : Nat}
  {argv : List Bytes} {logger : Sinks}

theorem takesEffect_unchanged {err : Err} (h : err ≠ Err.ok) :
    TakesEffect argv logger err logger :=
  ⟨fun hok => absurd hok h, fun _ => rfl⟩

theorem takesEffect_syslog (h : IsSyslog argv) : TakesEffect argv logger Err.ok logger :=
  ⟨fun _ => Or.inl ⟨h, rfl⟩, fun _ => rfl⟩

/-- The handler comes to an end, and the directive takes effect. -/
def DoesTakeEffect (argv : List Bytes) (logger : Sinks)
    (out : Except Undefined (Err × Sinks × List Bytes)) : Prop :=
  ∃ err logger' logged, out = .ok (err, logger', logged) ∧ TakesEffect argv logger err logger'

theorem doesTakeEffect_ok {err : Err} {logger' : Sinks} {logged : List Bytes} :
    DoesTakeEffect argv logger (.ok (err, logger', logged)) ↔
      TakesEffect argv logger err logger' := by
  constructor
  · rintro ⟨_, _, _, heq, heffect⟩
    cases heq
    exact heffect
  · exact fun heffect => ⟨_, _, _, rfl, heffect⟩

theorem not_doesTakeEffect_error {undefined : Undefined} :
    ¬ DoesTakeEffect argv logger (.error undefined) := by
  rintro ⟨_, _, _, heq, -⟩
  cases heq

/-- A constructor whose status is dropped: the success of the directive is true exactly if it
is the constructor's. -/
theorem takesEffect_dropped_iff {granted : Prop} {level size : Nat} {out : Err × Sinks}
    (h : Adds granted level size logger out) (hsyslog : ¬ IsSyslog argv)
    (hlevel : logPrio level = argv.getD 1 [])
    (hsize : argv.length = 3 → Denotes (argv.getD 2 []) size) :
    TakesEffect argv logger Err.ok out.2 ↔ granted := by
  constructor
  · intro heffect
    by_cases hgranted : granted
    · exact hgranted
    · have hsame := (h.failed hgranted).2
      rcases heffect.ok rfl with hno | ⟨sink, hsink, -⟩
      · exact absurd hno.1 hsyslog
      · rw [hsame, List.self_eq_append_right] at hsink
        cases hsink
  · intro hgranted
    obtain ⟨-, target, hpush⟩ := h.ok hgranted
    constructor
    · intro _
      right
      exact ⟨_, by rw [hpush]; rfl, hlevel, hsize⟩
    · intro hne
      exact absurd rfl hne

/-! ## When it takes effect -/

def SinkGranted (os : AddOs) (argv : List Bytes) (logger : Sinks) : Prop :=
  CanAdd os logger ∧ (IsStream argv ∨ CanOpen os)

/-- A log file whose constructor has a status takes effect if it succeeds; without a node for the
cleanup it does not. -/
theorem takesEffect_file_iff {level : Nat} (fname : Bytes) (size : Nat) (logged : List Bytes)
    (hsyslog : ¬ IsSyslog argv) (hstream : ¬ IsStream argv)
    (hlevel : logPrio level = argv.getD 1 [])
    (hsize : argv.length = 3 → Denotes (argv.getD 2 []) size) :
    DoesTakeEffect argv logger (do
        let out ← addLogFile os level fname size logger
        .ok (Err.ok, out.2, logged)) ↔ SinkGranted os argv logger := by
  have hgranted : SinkGranted os argv logger ↔ CanAdd os logger ∧ CanOpen os := by
    simp [SinkGranted, hstream]
  rw [hgranted]
  by_cases hnode : NoNode os logger
  · rw [addLogFile_noNode os level size logger fname hnode]
    exact iff_of_false not_doesTakeEffect_error fun h => hnode.refused h.2.node
  · obtain ⟨out, hout, hadds⟩ := addLogFile_adds os level size logger fname hnode
    rw [hout]
    exact doesTakeEffect_ok.trans (takesEffect_dropped_iff hadds hsyslog hlevel hsize)

def InvalidLimit (T : SsizeType) (argv : List Bytes) : Prop :=
  argv.length = 3 ∧ ¬ ∃ v, Denotes (argv.getD 2 []) v ∧ v ≤ T.max

theorem not_isSyslog_of_ne (h : argv.getD 0 [] ≠ ascii "syslog") : ¬ IsSyslog argv :=
  fun hsyslog => h hsyslog.2

theorem takesEffect_stream_iff (fd : Nat) (hstream : IsStream argv)
    (hlevel : parseLogLevel (argv.getD 1 []) ≠ logInvalidLevel) :
    TakesEffect argv logger Err.ok
        (addLogFd os (parseLogLevel (argv.getD 1 [])) fd logger).2 ↔
      IsSyslog argv ∨ SinkGranted os argv logger := by
  have hsyslog : ¬ IsSyslog argv := by
    intro h
    rcases hstream.2 with h0 | h0
    · exact absurd (h0.symm.trans h.2) (by decide)
    · exact absurd (h0.symm.trans h.2) (by decide)
  have hsize : argv.length = 3 → Denotes (argv.getD 2 []) 0 := by
    intro h
    exact absurd (hstream.1.symm.trans h) (by decide)
  rw [takesEffect_dropped_iff (addLogFd_adds os _ logger fd) hsyslog
    (parseLogLevel_known hlevel) hsize, SinkGranted]
  simp [hsyslog, hstream]

theorem handlerLog_two (hargc : argv.length = 2)
    (hlevel : parseLogLevel (argv.getD 1 []) ≠ logInvalidLevel) :
    DoesTakeEffect argv logger (handlerLog T os daemon filename line argv logger) ↔
      IsSyslog argv ∨ SinkGranted os argv logger := by
  have hthree : ¬ (2 : Nat) = 3 := by decide
  simp only [handlerLog, if_neg hlevel, hargc, true_and, if_neg hthree]
  by_cases hout : argv.getD 0 [] = ascii "stdout"
  · rw [if_pos hout]
    exact doesTakeEffect_ok.trans (takesEffect_stream_iff stdoutFd ⟨hargc, Or.inl hout⟩ hlevel)
  · rw [if_neg hout]
    by_cases herr : argv.getD 0 [] = ascii "stderr"
    · rw [if_pos herr]
      exact doesTakeEffect_ok.trans (takesEffect_stream_iff stderrFd ⟨hargc, Or.inr herr⟩ hlevel)
    · rw [if_neg herr]
      by_cases hsyslog : argv.getD 0 [] = ascii "syslog"
      · rw [if_pos hsyslog]
        have h : IsSyslog argv := ⟨hargc, hsyslog⟩
        exact doesTakeEffect_ok.trans (iff_of_true (takesEffect_syslog h) (Or.inl h))
      · rw [if_neg hsyslog, if_pos trivial]
        have hno := not_isSyslog_of_ne hsyslog
        have hstream : ¬ IsStream argv := fun h => h.2.elim hout herr
        rw [or_iff_right hno, ← takesEffect_file_iff (argv.getD 0 []) 0 [] hno hstream
          (parseLogLevel_known hlevel) fun h => by omega]
        cases addLogFile os (parseLogLevel (argv.getD 1 [])) (argv.getD 0 []) 0 logger with
        | error undefined => exact Iff.rfl
        | ok out => exact Iff.rfl

theorem parseSize_limit (T : SsizeType) (hargc : argv.length = 3) :
    (∃ v : Nat, parseSize T (argv.getD 2 []) = .ok (v : Int) ∧
      Denotes (argv.getD 2 []) v ∧ ¬ InvalidLimit T argv) ∨
    (parseSize T (argv.getD 2 []) = .ok (-1) ∧ InvalidLimit T argv) := by
  rcases parseSize_eq T (argv.getD 2 []) with ⟨v, hv, hparse⟩ | ⟨hno, hparse⟩
  · by_cases hfits : v ≤ T.max
    · left
      rw [if_pos hfits] at hparse
      exact ⟨v, hparse, (hv v).mpr rfl, fun h => h.2 ⟨v, (hv v).mpr rfl, hfits⟩⟩
    · right
      rw [if_neg hfits] at hparse
      apply And.intro hparse
      apply And.intro hargc
      intro h
      obtain ⟨v', hv', hle⟩ := h
      exact hfits ((hv v').mp hv' ▸ hle)
  · right
    apply And.intro hparse
    apply And.intro hargc
    intro h
    obtain ⟨v, hv, _⟩ := h
    exact hno v hv

theorem handlerLog_three (hargc : argv.length = 3)
    (hlevel : parseLogLevel (argv.getD 1 []) ≠ logInvalidLevel) :
    DoesTakeEffect argv logger (handlerLog T os daemon filename line argv logger) ↔
      InvalidLimit T argv ∨ SinkGranted os argv logger := by
  have htwo : ¬ (3 : Nat) = 2 := by decide
  simp only [handlerLog, if_neg hlevel, hargc, htwo, false_and, if_false, if_true]
  rcases parseSize_limit T hargc with ⟨v, hparse, hdenotes, hvalid⟩ | ⟨hparse, hinvalid⟩
  · have hpos : ¬ (v : Int) = -1 := by omega
    have hno : ¬ IsSyslog argv := fun h => htwo (hargc.symm.trans h.1)
    have hstream : ¬ IsStream argv := fun h => htwo (hargc.symm.trans h.1)
    rw [hparse, or_iff_right hvalid]
    simp only [Bind.bind, Except.bind, if_neg hpos, Int.toNat_natCast]
    exact takesEffect_file_iff _ v [] hno hstream (parseLogLevel_known hlevel) fun _ => hdenotes
  · rw [hparse]
    exact doesTakeEffect_ok.trans (iff_of_true (takesEffect_unchanged Err.configSyntax_ne_ok)
      (Or.inl hinvalid))

/-- An accepted log directive takes effect exactly if its level is unknown or its limit is none,
so that it is refused, or it names syslog, or the constructor of its sink succeeds. -/
theorem handlerLog_takesEffect_iff (T : SsizeType) (os : AddOs) (daemon : Bool)
    (filename : Bytes) (line : Nat) (logger : Sinks) {argv : List Bytes}
    (hargc : argv.length = 2 ∨ argv.length = 3) :
    DoesTakeEffect argv logger (handlerLog T os daemon filename line argv logger) ↔
      argv.getD 1 [] ∉ logPrios ∨ IsSyslog argv ∨ InvalidLimit T argv ∨
        SinkGranted os argv logger := by
  by_cases hlevel : parseLogLevel (argv.getD 1 []) = logInvalidLevel
  · have hunknown := parseLogLevel_unknown_iff.mp hlevel
    simp only [handlerLog, if_pos hlevel]
    exact doesTakeEffect_ok.trans
      (iff_of_true (takesEffect_unchanged Err.configSyntax_ne_ok) (Or.inl hunknown))
  · have hknown : ¬ argv.getD 1 [] ∉ logPrios := mt parseLogLevel_unknown_iff.mpr hlevel
    rcases hargc with htwo | hthree
    · have hlimit : ¬ InvalidLimit T argv := fun h => by
        have hlen := h.1
        omega
      rw [handlerLog_two htwo hlevel]
      simp only [hknown, hlimit, false_or]
    · have hsyslog : ¬ IsSyslog argv := fun h => by
        have hlen := h.1
        omega
      rw [handlerLog_three hthree hlevel]
      simp only [hknown, hsyslog, false_or]

def logToFile : List Bytes := [ascii "/var/log/fpx.log", ascii "error"]

theorem handlerLog_takesEffect_two :
    DoesTakeEffect logToFile ⟨false, []⟩
      (handlerLog ssize64 smallFile true [] 1 logToFile ⟨false, []⟩) := by
  have hgrants : SinkGranted smallFile logToFile ⟨false, []⟩ :=
    ⟨⟨rfl, rfl, rfl⟩, Or.inr ⟨⟨_, rfl⟩, rfl, rfl⟩⟩
  exact (@handlerLog_takesEffect_iff ssize64 smallFile true [] 1 ⟨false, []⟩ logToFile
    (Or.inl rfl)).mpr (Or.inr (Or.inr (Or.inr hgrants)))

def noFile : AddOs := ⟨none, none, .error ⟨13, by decide⟩, none, none⟩

/-- The directive is accepted with success, and there is no sink. -/
theorem log_directive_lost :
    handlerLog ssize64 noFile true [] 1 logToFile ⟨false, []⟩ = .ok (Err.ok, ⟨false, []⟩, []) ∧
      ¬ TakesEffect logToFile ⟨false, []⟩ Err.ok ⟨false, []⟩ := by
  constructor
  · rfl
  · intro h
    rcases h.ok rfl with hsyslog | ⟨sink, hsink, _⟩
    · exact absurd hsyslog.1.2 (by decide)
    · cases hsink

end Floppix.Configuration
