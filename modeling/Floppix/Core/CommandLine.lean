import Floppix.System.Errno
import Floppix.Util.Bytes

/-! # The command line

`fpx_parse_argv` walks along `argv` with two cursors: an index into the array and a pointer
into the current word. An option that takes a value advances the index from inside the loop
over the characters, so one word can consume any number of the arguments behind it.
-/

namespace Floppix.CommandLine

/-- How a read leaves `argv`, or why there is no result. -/
inductive Fault where
  /-- a read of the array behind its `NULL` -/
  | overread
  /-- a read through that `NULL` -/
  | nullPointer
  | outOfRounds
deriving DecidableEq, Repr

/-- The variables of `main.c` that the options set. -/
structure Statics where
  showVersion : Bool
  showHelp : Bool
  testConfig : Bool
  configFname : Bytes
deriving DecidableEq, Repr

def Statics.initial (defaultConfigPath : Bytes) : Statics :=
  ⟨false, false, false, defaultConfigPath⟩

/-- `argv[i]`, which is `NULL` behind the strings. -/
def argvAt (argv : List Bytes) (i : Nat) : Except Fault (Option Bytes) :=
  if i ≤ argv.length then .ok argv[i]? else .error .overread

/-- How the loop over the characters of a word is left. -/
inductive Exit where
  | wordEnd (i : Nat) (st : Statics)
  | invalidOption (st : Statics)
  | missingArgment (st : Statics)
deriving DecidableEq, Repr

/-- `while (*p)`. -/
def optionLoop (argv : List Bytes) : Bytes → Nat → Statics → Except Fault Exit
  | [], i, st => .ok (.wordEnd i st)
  | c :: p, i, st =>
      if c = 0x76 then optionLoop argv p i { st with showVersion := true }
      else if c = 0x68 then optionLoop argv p i { st with showHelp := true }
      else if c = 0x74 then optionLoop argv p i { st with testConfig := true }
      else if c = 0x63 then
        match argvAt argv (i + 1) with
        | .error fault => .error fault
        | .ok none => .ok (.missingArgment st)
        | .ok (some value) => optionLoop argv p (i + 1) { st with configFname := value }
      else if c = 0x2D then
        if p = ascii "version" then
          optionLoop argv (p.drop (ascii "version").length) i { st with showVersion := true }
        else if p = ascii "help" then
          optionLoop argv (p.drop (ascii "help").length) i { st with showHelp := true }
        else if p = ascii "test-config" then
          optionLoop argv (p.drop (ascii "test-config").length) i { st with testConfig := true }
        else if p = ascii "config-file" then
          match argvAt argv (i + 1) with
          | .error fault => .error fault
          | .ok none => .ok (.missingArgment st)
          | .ok (some value) =>
              optionLoop argv (p.drop (ascii "config-file").length) (i + 1)
                { st with configFname := value }
        else .ok (.invalidOption st)
      else .ok (.invalidOption st)
termination_by p => p.length
decreasing_by all_goals simp only [List.length_cons, List.length_drop]; omega

/-- What the parser leaves: its status, the variables, and the text that it gives to
`fpx_log_stderr`. -/
structure Parsed where
  err : Err
  statics : Statics
  stderr : Option Bytes
deriving DecidableEq, Repr

/-- `for (i = 1; i < argc; ++i)`, from an index on. -/
def parseLoop (argv : List Bytes) : Nat → Nat → Statics → Except Fault Parsed
  | 0, _, _ => .error .outOfRounds
  | rounds + 1, i, st =>
      if i < argv.length then
        match argvAt argv i with
        | .error fault => .error fault
        | .ok none => .error .nullPointer
        | .ok (some []) => .ok ⟨Err.failed, st, none⟩
        | .ok (some (c :: p)) =>
            if c ≠ 0x2D ∨ p = [] then .ok ⟨Err.failed, st, none⟩
            else
              match optionLoop argv p i st with
              | .error fault => .error fault
              | .ok (.wordEnd i st) => parseLoop argv rounds (i + 1) st
              | .ok (.invalidOption st) =>
                  .ok ⟨Err.failed, st, some (ascii "Invalid options \"" ++ c :: p ++ ascii "\"")⟩
              | .ok (.missingArgment st) =>
                  .ok ⟨Err.failed, st,
                    some (ascii "Missing argment for options \"" ++ c :: p ++ ascii "\"")⟩
      else .ok ⟨Err.ok, st, none⟩

def parseArgv (defaultConfigPath : Bytes) (rounds : Nat) (argv : List Bytes) :
    Except Fault Parsed :=
  parseLoop argv rounds 1 (Statics.initial defaultConfigPath)

/-! ## Option words -/

inductive Opt where
  | version
  | help
  | testConfig
  | configFile
deriving DecidableEq, Repr

def Opt.char : Opt → UInt8
  | .version => 0x76
  | .help => 0x68
  | .testConfig => 0x74
  | .configFile => 0x63

def Opt.name : Opt → Bytes
  | .version => ascii "version"
  | .help => ascii "help"
  | .testConfig => ascii "test-config"
  | .configFile => ascii "config-file"

/-- The letters of an option word and the long form at its end. There is one of them. -/
structure OptionWord where
  letters : List Opt
  long : Option Opt
  nonempty : letters = [] → long ≠ none

/-- What stands at the end of a word for a long form. -/
def longText : Option Opt → Bytes
  | none => []
  | some opt => 0x2D :: opt.name

namespace OptionWord

def text (w : OptionWord) : Bytes := 0x2D :: (w.letters.map Opt.char ++ longText w.long)

def opts (w : OptionWord) : List Opt := w.letters ++ w.long.toList

end OptionWord

structure Usage where
  word : OptionWord
  values : List Bytes
  each : values.length = word.opts.count .configFile

def Usage.args (u : Usage) : List Bytes := u.word.text :: u.values

/-- What options with their values make of the variables. -/
def Statics.after (st : Statics) (opts : List Opt) (values : List Bytes) : Statics where
  showVersion := st.showVersion || decide (Opt.version ∈ opts)
  showHelp := st.showHelp || decide (Opt.help ∈ opts)
  testConfig := st.testConfig || decide (Opt.testConfig ∈ opts)
  configFname := values.getLast?.getD st.configFname

@[simp] theorem Statics.after_nil (st : Statics) : st.after [] [] = st := by
  simp [Statics.after]

theorem Statics.after_after (st : Statics) (opts opts' : List Opt) (values values' : List Bytes) :
    (st.after opts values).after opts' values' = st.after (opts ++ opts') (values ++ values') := by
  simp only [Statics.after, List.mem_append, Bool.decide_or, Bool.or_assoc, List.getLast?_append]
  cases values'.getLast? <;> rfl

/-! ## One option -/

/-- The values of some options: the arguments behind the index, as many as they consume. -/
structure Consumes (argv : List Bytes) (i : Nat) (opts : List Opt) (values : List Bytes) :
    Prop where
  each : values.length = opts.count .configFile
  args : argv.drop (i + 1) = values ++ argv.drop (i + values.length + 1)

theorem Consumes.flag {argv : List Bytes} {i : Nat} {opt : Opt} {values : List Bytes}
    (h : Consumes argv i [opt] values) (hopt : opt ≠ .configFile) : values = [] := by
  have heach := h.each
  rw [List.count_singleton, if_neg (by simpa using hopt)] at heach
  exact List.eq_nil_of_length_eq_zero heach

theorem Consumes.value {argv : List Bytes} {i : Nat} {values : List Bytes}
    (h : Consumes argv i [.configFile] values) :
    ∃ value, values = [value] ∧ argvAt argv (i + 1) = .ok (some value) := by
  obtain ⟨value, rfl⟩ := List.length_eq_one_iff.mp h.each
  have hget : argv[i + 1]? = some value := by
    rw [← List.head?_drop, h.args]
    rfl
  have hlt := (List.getElem?_eq_some_iff.mp hget).choose
  exact ⟨value, rfl, by rw [argvAt, if_pos (Nat.le_of_lt hlt), hget]⟩

/-- A letter sets what its option asks for and advances the index over the option's value. -/
theorem optionLoop_letter {argv : List Bytes} {i : Nat} {opt : Opt} {values : List Bytes}
    (h : Consumes argv i [opt] values) (p : Bytes) (st : Statics) :
    optionLoop argv (opt.char :: p) i st =
      optionLoop argv p (i + values.length) (st.after [opt] values) := by
  cases opt with
  | configFile =>
      obtain ⟨value, rfl, hvalue⟩ := h.value
      rw [optionLoop]
      simp [Opt.char, hvalue, Statics.after]
  | version | help | testConfig =>
      rw [optionLoop, h.flag (by decide)]
      simp [Opt.char, Statics.after]

@[simp] theorem optionLoop_nil (argv : List Bytes) (i : Nat) (st : Statics) :
    optionLoop argv [] i st = .ok (.wordEnd i st) := by
  rw [optionLoop]

theorem name_inj {opt opt' : Opt} : opt.name = opt'.name ↔ opt = opt' := by
  cases opt <;> cases opt' <;> decide

theorem name_version : ascii "version" = Opt.version.name := rfl
theorem name_help : ascii "help" = Opt.help.name := rfl
theorem name_testConfig : ascii "test-config" = Opt.testConfig.name := rfl
theorem name_configFile : ascii "config-file" = Opt.configFile.name := rfl

theorem optionLoop_long {argv : List Bytes} {i : Nat} {opt : Opt} {values : List Bytes}
    (h : Consumes argv i [opt] values) (st : Statics) :
    optionLoop argv (0x2D :: opt.name) i st =
      .ok (.wordEnd (i + values.length) (st.after [opt] values)) := by
  rw [optionLoop, if_neg (by decide), if_neg (by decide), if_neg (by decide),
    if_neg (by decide), if_pos rfl]
  simp only [name_version, name_help, name_testConfig, name_configFile, name_inj]
  cases opt with
  | configFile =>
      obtain ⟨value, rfl, hvalue⟩ := h.value
      simp [hvalue, Statics.after]
  | version | help | testConfig =>
      rw [h.flag (by decide)]
      simp [Statics.after]

/-- An option finds its value, or it is the one that needs one and `argv` is at its end. -/
theorem consumes_or_missing {argv : List Bytes} {i : Nat} (hi : i < argv.length) (opt : Opt) :
    (∃ values, Consumes argv i [opt] values) ∨
      opt = .configFile ∧ argvAt argv (i + 1) = .ok none := by
  by_cases hopt : opt = .configFile
  · subst hopt
    by_cases hlt : i + 1 < argv.length
    · left
      exact ⟨[argv[i + 1]], rfl, List.drop_eq_getElem_cons hlt⟩
    · right
      exact ⟨rfl, by rw [argvAt, if_pos (Nat.succ_le_of_lt hi), List.getElem?_eq_none (by omega)]⟩
  · left
    apply Exists.intro []
    constructor
    · rw [List.count_singleton, if_neg (by simpa using hopt), List.length_nil]
    · rfl

/-- What the loop does at a character: it takes an option by its letter, or by its long form at
the end of the word, or it leaves the function. -/
theorem optionLoop_cons_cases {argv : List Bytes} {i : Nat} (hi : i < argv.length) (c : UInt8)
    (p : Bytes) (st : Statics) :
    (∃ opt values, Consumes argv i [opt] values ∧ c = opt.char) ∨
    (∃ opt values, Consumes argv i [opt] values ∧ c = 0x2D ∧ p = opt.name) ∨
    optionLoop argv (c :: p) i st = .ok (.missingArgment st) ∨
    optionLoop argv (c :: p) i st = .ok (.invalidOption st) := by
  by_cases hletter : ∃ opt : Opt, c = opt.char
  · obtain ⟨opt, rfl⟩ := hletter
    rcases consumes_or_missing hi opt with ⟨values, h⟩ | ⟨rfl, hmissing⟩
    · exact Or.inl ⟨opt, values, h, rfl⟩
    · right; right; left
      rw [optionLoop]
      simp [Opt.char, hmissing]
  · have hv : c ≠ 0x76 := fun h => hletter ⟨.version, h⟩
    have hh : c ≠ 0x68 := fun h => hletter ⟨.help, h⟩
    have ht : c ≠ 0x74 := fun h => hletter ⟨.testConfig, h⟩
    have hc : c ≠ 0x63 := fun h => hletter ⟨.configFile, h⟩
    by_cases hdash : c = 0x2D
    · by_cases hname : ∃ opt : Opt, p = opt.name
      · obtain ⟨opt, rfl⟩ := hname
        rcases consumes_or_missing hi opt with ⟨values, h⟩ | ⟨rfl, hmissing⟩
        · exact Or.inr (Or.inl ⟨opt, values, h, hdash, rfl⟩)
        · right; right; left
          rw [optionLoop, if_neg hv, if_neg hh, if_neg ht, if_neg hc, if_pos hdash]
          simp only [name_version, name_help, name_testConfig, name_configFile, name_inj]
          simp [hmissing]
      · right; right; right
        have hversion : p ≠ ascii "version" := fun h => hname ⟨.version, h⟩
        have hhelp : p ≠ ascii "help" := fun h => hname ⟨.help, h⟩
        have htest : p ≠ ascii "test-config" := fun h => hname ⟨.testConfig, h⟩
        have hconfig : p ≠ ascii "config-file" := fun h => hname ⟨.configFile, h⟩
        rw [optionLoop, if_neg hv, if_neg hh, if_neg ht, if_neg hc, if_pos hdash,
          if_neg hversion, if_neg hhelp, if_neg htest, if_neg hconfig]
    · right; right; right
      rw [optionLoop, if_neg hv, if_neg hh, if_neg ht, if_neg hc, if_neg hdash]

/-! ## One word -/

variable {argv : List Bytes} {i : Nat}

theorem Consumes.lt {opts : List Opt} {values : List Bytes} (h : Consumes argv i opts values)
    (hi : i < argv.length) : i + values.length < argv.length := by
  have hlen := congrArg List.length h.args
  rw [List.length_append, List.length_drop, List.length_drop] at hlen
  omega

theorem Consumes.append {opts opts' : List Opt} {values values' : List Bytes}
    (h : Consumes argv i opts values) (h' : Consumes argv (i + values.length) opts' values') :
    Consumes argv i (opts ++ opts') (values ++ values') := by
  constructor
  · rw [List.length_append, List.count_append, h.each, h'.each]
  · rw [h.args, h'.args, List.append_assoc, List.length_append, Nat.add_assoc i]

theorem drop_behind {values rest : List Bytes} (h : argv.drop (i + 1) = values ++ rest) :
    argv.drop (i + values.length + 1) = rest := by
  rw [Nat.add_right_comm, ← List.drop_drop, h, List.drop_left]

theorem Consumes.split {opts opts' : List Opt} {values : List Bytes}
    (h : Consumes argv i (opts ++ opts') values) :
    ∃ first second, values = first ++ second ∧ Consumes argv i opts first ∧
      Consumes argv (i + first.length) opts' second := by
  have heach := h.each
  rw [List.count_append] at heach
  have happend := (List.take_append_drop (opts.count .configFile) values).symm
  have hfirst : (values.take (opts.count .configFile)).length = opts.count .configFile :=
    List.length_take_of_le (by omega)
  have hsecond : (values.drop (opts.count .configFile)).length = opts'.count .configFile := by
    rw [List.length_drop]
    omega
  generalize values.take (opts.count .configFile) = first at happend hfirst
  generalize values.drop (opts.count .configFile) = second at happend hsecond
  subst happend
  have hargs := h.args
  rw [List.append_assoc] at hargs
  have hrest := drop_behind hargs
  rw [List.length_append, ← Nat.add_assoc] at hrest
  apply Exists.intro first
  apply Exists.intro second
  constructor
  · rfl
  · constructor
    · exact ⟨hfirst, by rw [hrest, hargs, List.length_append, ← Nat.add_assoc]⟩
    · exact ⟨hsecond, hrest⟩

theorem optionLoop_letters {letters : List Opt} {values : List Bytes}
    (h : Consumes argv i letters values) (p : Bytes) (st : Statics) :
    optionLoop argv (letters.map Opt.char ++ p) i st =
      optionLoop argv p (i + values.length) (st.after letters values) := by
  induction letters generalizing i values st with
  | nil =>
      have hnil := List.eq_nil_of_length_eq_zero h.each
      subst hnil
      simp
  | cons opt letters ih =>
      have hcons : Consumes argv i ([opt] ++ letters) values := h
      obtain ⟨first, second, rfl, hfirst, hsecond⟩ := hcons.split
      rw [List.map_cons, List.cons_append, optionLoop_letter hfirst, ih hsecond,
        Statics.after_after, List.length_append, Nat.add_assoc]
      rfl

/-- A word of the grammar is read to its end: its options take their values and are set. -/
theorem optionLoop_word {letters : List Opt} {long : Option Opt} {values : List Bytes}
    (h : Consumes argv i (letters ++ long.toList) values) (st : Statics) :
    optionLoop argv (letters.map Opt.char ++ longText long) i st =
      .ok (.wordEnd (i + values.length) (st.after (letters ++ long.toList) values)) := by
  obtain ⟨first, second, rfl, hfirst, hsecond⟩ := h.split
  rw [optionLoop_letters hfirst]
  cases long with
  | none =>
      have hnil := List.eq_nil_of_length_eq_zero hsecond.each
      subst hnil
      simp [longText]
  | some opt =>
      rw [longText, optionLoop_long hsecond, Statics.after_after, List.length_append,
        Nat.add_assoc, Option.toList_some]

/-- The loop comes to the end of the word only if it is one of the grammar and its options find
their values. Otherwise it leaves the function. -/
theorem optionLoop_cases (hi : i < argv.length) (p : Bytes) (st : Statics) :
    (∃ letters long values, p = letters.map Opt.char ++ longText long ∧
      Consumes argv i (letters ++ long.toList) values) ∨
    (∃ st', optionLoop argv p i st = .ok (.missingArgment st')) ∨
    ∃ st', optionLoop argv p i st = .ok (.invalidOption st') := by
  induction p generalizing i st with
  | nil => exact Or.inl ⟨[], none, [], rfl, rfl, rfl⟩
  | cons c p ih =>
      rcases optionLoop_cons_cases hi c p st with ⟨opt, values, h, rfl⟩ |
        ⟨opt, values, h, rfl, rfl⟩ | h | h
      · rw [optionLoop_letter h]
        rcases ih (h.lt hi) (st.after [opt] values) with ⟨letters, long, more, rfl, hmore⟩ | hleft
        · left
          exact ⟨opt :: letters, long, values ++ more, rfl, h.append hmore⟩
        · exact Or.inr hleft
      · left
        exact ⟨[], some opt, values, rfl, h⟩
      · exact Or.inr (Or.inl ⟨st, h⟩)
      · exact Or.inr (Or.inr ⟨st, h⟩)

/-! ## The whole line -/

theorem OptionWord.body_ne_nil (w : OptionWord) :
    w.letters.map Opt.char ++ longText w.long ≠ [] := by
  intro h
  obtain ⟨hletters, hlong⟩ := List.append_eq_nil_iff.mp h
  have hsome := w.nonempty (List.map_eq_nil_iff.mp hletters)
  cases hw : w.long with
  | none => exact hsome hw
  | some opt =>
      rw [hw] at hlong
      cases hlong

/-- The word at the index is one of the grammar and its options find their values. -/
structure Stands (argv : List Bytes) (i : Nat) (u : Usage) : Prop where
  word : argv[i]? = some u.word.text
  values : Consumes argv i u.word.opts u.values

theorem argvAt_of_some {word : Bytes} (h : argv[i]? = some word) :
    argvAt argv i = .ok (some word) := by
  have hlt := (List.getElem?_eq_some_iff.mp h).choose
  rw [argvAt, if_pos (Nat.le_of_lt hlt), h]

theorem parseLoop_stands {u : Usage} (h : Stands argv i u) (rounds : Nat) (st : Statics) :
    parseLoop argv (rounds + 1) i st =
      parseLoop argv rounds (i + u.values.length + 1) (st.after u.word.opts u.values) := by
  have hlt := (List.getElem?_eq_some_iff.mp h.word).choose
  have hbody : ¬ ((0x2D : UInt8) ≠ 0x2D ∨
      u.word.letters.map Opt.char ++ longText u.word.long = []) :=
    fun hor => hor.elim (fun hne => hne rfl) u.word.body_ne_nil
  rw [parseLoop, if_pos hlt, argvAt_of_some h.word, OptionWord.text]
  simp only [if_neg hbody]
  rw [optionLoop_word h.values]
  rfl

/-- At any other word the function ends without success. -/
theorem parseLoop_refuses (hi : i < argv.length) (h : ∀ u, ¬ Stands argv i u) (st : Statics) :
    ∃ st' stderr, ∀ rounds,
      parseLoop argv (rounds + 1) i st = .ok ⟨Err.failed, st', stderr⟩ := by
  have hat := argvAt_of_some (List.getElem?_eq_getElem hi)
  cases hword : argv[i] with
  | nil =>
      apply Exists.intro st
      apply Exists.intro none
      intro rounds
      rw [parseLoop, if_pos hi, hat, hword]
  | cons c p =>
      by_cases hdash : c ≠ 0x2D ∨ p = []
      · apply Exists.intro st
        apply Exists.intro none
        intro rounds
        rw [parseLoop, if_pos hi, hat, hword]
        simp only [if_pos hdash]
      · rcases optionLoop_cases hi p st with ⟨letters, long, values, hp, hvalues⟩ | ⟨st', hst⟩ |
          ⟨st', hst⟩
        · rw [not_or, not_ne_iff] at hdash
          obtain ⟨rfl, hp0⟩ := hdash
          subst hp
          have hnonempty : letters = [] → long ≠ none := by
            intro hletters hlong
            subst hletters hlong
            exact hp0 rfl
          have hat' : argv[i]? = some (0x2D :: (letters.map Opt.char ++ longText long)) := by
            rw [List.getElem?_eq_getElem hi, hword]
          exact absurd ⟨hat', hvalues⟩ (h ⟨⟨letters, long, hnonempty⟩, values, hvalues.each⟩)
        · apply Exists.intro st'
          apply Exists.intro (some (ascii "Missing argment for options \"" ++ c :: p ++ ascii "\""))
          intro rounds
          rw [parseLoop, if_pos hi, hat, hword]
          simp only [if_neg hdash, hst]
        · apply Exists.intro st'
          apply Exists.intro (some (ascii "Invalid options \"" ++ c :: p ++ ascii "\""))
          intro rounds
          rw [parseLoop, if_pos hi, hat, hword]
          simp only [if_neg hdash, hst]

/-- A split of what is left of `argv` begins at the index. -/
theorem stands_of_drop {u : Usage} {us : List Usage}
    (h : argv.drop i = (u :: us).flatMap Usage.args) :
    Stands argv i u ∧ argv.drop (i + u.values.length + 1) = us.flatMap Usage.args := by
  rw [List.flatMap_cons, Usage.args, List.cons_append] at h
  have hword : argv[i]? = some u.word.text := by
    rw [← List.head?_drop, h, List.head?_cons]
  have hargs : argv.drop (i + 1) = u.values ++ us.flatMap Usage.args := by
    rw [← List.tail_drop, h, List.tail_cons]
  have hrest := drop_behind hargs
  exact ⟨⟨hword, u.each, by rw [hargs, hrest]⟩, hrest⟩

theorem drop_of_stands {u : Usage} {us : List Usage} (h : Stands argv i u)
    (hrest : argv.drop (i + u.values.length + 1) = us.flatMap Usage.args) :
    argv.drop i = (u :: us).flatMap Usage.args := by
  obtain ⟨hlt, hword⟩ := List.getElem?_eq_some_iff.mp h.word
  rw [List.drop_eq_getElem_cons hlt, hword, h.values.args, hrest]
  rfl

/-- However a word is read, it has the same length in `argv` and the same effect. -/
theorem stands_unique {u u' : Usage} (h : Stands argv i u) (h' : Stands argv i u')
    (st : Statics) :
    u.values.length = u'.values.length ∧
      st.after u.word.opts u.values = st.after u'.word.opts u'.values := by
  have htext : u.word.text = u'.word.text := Option.some.inj (h.word.symm.trans h'.word)
  have hbody := List.tail_eq_of_cons_eq htext
  have hloop := optionLoop_word h.values st
  rw [hbody, optionLoop_word h'.values st] at hloop
  injection hloop with hloop
  injection hloop with hindex hstatics
  exact ⟨by omega, hstatics.symm⟩

/-- What a run of the outer loop comes to: success exactly if the rest of `argv` splits into
option words with their values, and then what these make of the variables. -/
structure Parses (rest : List Bytes) (st : Statics) (r : Parsed) : Prop where
  splits : r.err = Err.ok → ∃ us : List Usage, rest = us.flatMap Usage.args
  sets : ∀ us : List Usage, rest = us.flatMap Usage.args →
    r.err = Err.ok ∧
      r.statics = st.after (us.flatMap fun u => u.word.opts) (us.flatMap Usage.values)

theorem parses_nil (st : Statics) : Parses [] st ⟨Err.ok, st, none⟩ := by
  constructor
  · intro _
    exact ⟨[], rfl⟩
  · intro us hus
    cases us with
    | nil => simp
    | cons u us => cases hus

theorem parses_refused {st : Statics} (hi : i < argv.length) (h : ∀ u, ¬ Stands argv i u)
    (st' : Statics) (stderr : Option Bytes) :
    Parses (argv.drop i) st ⟨Err.failed, st', stderr⟩ := by
  constructor
  · intro hok
    exact absurd hok Err.failed_ne_ok
  · intro us hus
    cases us with
    | nil => exact absurd (List.drop_eq_nil_iff.mp hus) (by omega)
    | cons u us => exact absurd (stands_of_drop hus).1 (h u)

theorem parses_stands {u : Usage} {st : Statics} {r : Parsed} (h : Stands argv i u)
    (hr : Parses (argv.drop (i + u.values.length + 1)) (st.after u.word.opts u.values) r) :
    Parses (argv.drop i) st r := by
  constructor
  · intro hok
    obtain ⟨us, hus⟩ := hr.splits hok
    exact ⟨u :: us, drop_of_stands h hus⟩
  · intro us hus
    cases us with
    | nil =>
        have hlt := (List.getElem?_eq_some_iff.mp h.word).choose
        exact absurd (List.drop_eq_nil_iff.mp hus) (by omega)
    | cons u' us =>
        obtain ⟨h', hrest⟩ := stands_of_drop hus
        obtain ⟨hlen, heffect⟩ := stands_unique h' h st
        rw [hlen] at hrest
        obtain ⟨hok, hstatics⟩ := hr.sets us hrest
        rw [hstatics, ← heffect, Statics.after_after]
        exact ⟨hok, rfl⟩

theorem parseLoop_parses (bound : Nat) (hbound : argv.length - i < bound) (st : Statics) :
    ∃ r, (∀ rounds, bound ≤ rounds → parseLoop argv rounds i st = .ok r) ∧
      Parses (argv.drop i) st r := by
  induction bound generalizing i st with
  | zero => omega
  | succ bound ih =>
      by_cases hi : i < argv.length
      · by_cases hstands : ∃ u, Stands argv i u
        · obtain ⟨u, h⟩ := hstands
          have hbehind : argv.length - (i + u.values.length + 1) < bound := by omega
          obtain ⟨r, hrun, hr⟩ := ih hbehind (st.after u.word.opts u.values)
          apply Exists.intro r
          constructor
          · intro rounds hrounds
            obtain ⟨more, rfl⟩ := Nat.exists_eq_add_of_lt (Nat.lt_of_succ_le hrounds)
            rw [parseLoop_stands h]
            exact hrun _ (Nat.le_add_right _ _)
          · exact parses_stands h hr
        · have hno := not_exists.mp hstands
          obtain ⟨st', stderr, hrun⟩ := parseLoop_refuses hi hno st
          apply Exists.intro ⟨Err.failed, st', stderr⟩
          constructor
          · intro rounds hrounds
            obtain ⟨more, rfl⟩ := Nat.exists_eq_add_of_lt (Nat.lt_of_succ_le hrounds)
            exact hrun _
          · exact parses_refused hi hno st' stderr
      · apply Exists.intro ⟨Err.ok, st, none⟩
        constructor
        · intro rounds hrounds
          obtain ⟨more, rfl⟩ := Nat.exists_eq_add_of_lt (Nat.lt_of_succ_le hrounds)
          rw [parseLoop, if_neg hi]
        · rw [List.drop_eq_nil_of_le (Nat.le_of_not_lt hi)]
          exact parses_nil st

/-- Command line parsing. On every `argv` of a name and some arguments the parser ends, without
a read behind the `NULL` of the array. It succeeds exactly if the arguments split into option
words, each with the values that its options consume; then a variable is set exactly if an
option word asks for it, and the configuration file is the value that was consumed last. -/
theorem parseArgv_accepts (defaultConfigPath argv0 : Bytes) (args : List Bytes) :
    ∃ r, (∀ rounds, args.length < rounds →
        parseArgv defaultConfigPath rounds (argv0 :: args) = .ok r) ∧
      (r.err = Err.ok ↔ ∃ us : List Usage, args = us.flatMap Usage.args) ∧
      ∀ us : List Usage, args = us.flatMap Usage.args →
        (r.statics.showVersion = true ↔ ∃ u ∈ us, Opt.version ∈ u.word.opts) ∧
        (r.statics.showHelp = true ↔ ∃ u ∈ us, Opt.help ∈ u.word.opts) ∧
        (r.statics.testConfig = true ↔ ∃ u ∈ us, Opt.testConfig ∈ u.word.opts) ∧
        r.statics.configFname = (us.flatMap Usage.values).getLast?.getD defaultConfigPath := by
  have hbound : (argv0 :: args).length - 1 < args.length + 1 := by simp
  obtain ⟨r, hrun, hr⟩ := parseLoop_parses _ hbound (Statics.initial defaultConfigPath)
  rw [List.drop_succ_cons, List.drop_zero] at hr
  apply Exists.intro r
  constructor
  · intro rounds hrounds
    exact hrun rounds hrounds
  · constructor
    · constructor
      · exact hr.splits
      · intro h
        obtain ⟨us, hus⟩ := h
        exact (hr.sets us hus).1
    · intro us hus
      rw [(hr.sets us hus).2]
      simp [Statics.after, Statics.initial, List.mem_flatMap]

end Floppix.CommandLine
