import Floppix.Core.Config.Masks
import Floppix.Core.Initialisation
import Floppix.Core.Main

/-! # A server that is set up

When the program gets through the initialisation of its modules, and what it has made of the
command line, of the configuration and of its modules by then.
-/

namespace Floppix.Program

open Floppix.Configuration Logging CommandLine Worklist Relation

variable {P C ρ : Type} [DecidableEq P] {env : Env P C ρ} {argv0 : Bytes} {args : List Bytes}
  {rounds : Nat} {ds : List Directive} {s : ServerState P C ρ}

/-! ## The command line -/

def Plain (us : List Usage) : Prop := ∀ u ∈ us, ∀ opt ∈ u.word.opts, opt = .configFile

def Env.configFname (env : Env P C ρ) (us : List Usage) : Bytes :=
  (us.flatMap Usage.values).getLast?.getD env.defaultConfigPath

/-- What the options make of the variables. -/
def Env.statics (env : Env P C ρ) (us : List Usage) : Statics :=
  (Statics.initial env.defaultConfigPath).after (us.flatMap fun u => u.word.opts)
    (us.flatMap Usage.values)

omit [DecidableEq P] in
theorem plain_iff (env : Env P C ρ) {us : List Usage} :
    Plain us ↔ (env.statics us).showVersion = false ∧
      (env.statics us).showHelp = false ∧ (env.statics us).testConfig = false := by
  simp only [Env.statics, Statics.after, Statics.initial, Bool.false_or, decide_eq_false_iff_not,
    List.mem_flatMap, not_exists, not_and, Plain]
  constructor
  · intro hplain
    have hne {opt : Opt} (hopt : opt ≠ .configFile) (u : Usage) (hu : u ∈ us) :
        opt ∉ u.word.opts := fun hmem => hopt (hplain u hu opt hmem)
    exact ⟨hne (by decide), hne (by decide), hne (by decide)⟩
  · intro hno u hu opt hopt
    cases opt with
    | version => exact absurd hopt (hno.1 u hu)
    | help => exact absurd hopt (hno.2.1 u hu)
    | testConfig => exact absurd hopt (hno.2.2 u hu)
    | configFile => rfl

theorem main_of_refused (env : Env P C ρ) (rounds : Nat) (argv0 : Bytes)
    (h : ∀ us : List Usage, args ≠ us.flatMap Usage.args) :
    ∃ stderr, main env rounds (argv0 :: args) = .ok (.exit 1 stderr) := by
  have hbound : (argv0 :: args).length - 1 < (argv0 :: args).length := by simp
  obtain ⟨r, hrun, hr⟩ := parseLoop_parses _ hbound (Statics.initial env.defaultConfigPath)
  have hparse : parseArgv env.defaultConfigPath (argv0 :: args).length (argv0 :: args) = .ok r :=
    hrun _ le_rfl
  have hbad : r.err ≠ Err.ok := by
    intro hok
    obtain ⟨us, hus⟩ := hr.splits hok
    exact h us hus
  rw [main, hparse]
  exact ⟨_, if_pos hbad⟩

theorem main_of_accepted {us : List Usage} (h : args = us.flatMap Usage.args) :
    main env rounds (argv0 :: args) =
      if (env.statics us).showVersion then .ok (.exit 0 [])
      else if (env.statics us).showHelp then .ok (.exit 0 [])
      else env.start rounds (env.statics us) := by
  have hbound : (argv0 :: args).length - 1 < (argv0 :: args).length := by simp
  obtain ⟨r, hrun, hr⟩ := parseLoop_parses _ hbound (Statics.initial env.defaultConfigPath)
  have hparse : parseArgv env.defaultConfigPath (argv0 :: args).length (argv0 :: args) = .ok r :=
    hrun _ le_rfl
  obtain ⟨hok, hstatics⟩ := hr.sets us h
  have hgood : ¬ r.err ≠ Err.ok := not_not.mpr hok
  rw [main, hparse]
  simp only [if_neg hgood, hstatics]
  rfl

theorem prelinked_ok (env : Env P C ρ) : env.prelinked.1 = Err.ok := rfl

theorem preinit_ok (env : Env P C ρ) : (Modules.preinitModules env.prelinked.2).1 = Err.ok := rfl

theorem start_ready_iff {statics : Statics} :
    env.start rounds statics = .ok (.ready ds s) ↔ statics.testConfig = false ∧ ∃ reading,
      configRead env.fs plenty statics.configFname Reading.empty = .ok (Err.ok, reading) ∧
        env.loggerInit = Err.ok ∧ env.process rounds (env.world reading) = .ok (.ready ds s) := by
  unfold Env.start
  cases hread : configRead env.fs plenty statics.configFname Reading.empty with
  | error halt => simp
  | ok out =>
      obtain ⟨err, reading⟩ := out
      by_cases herr : err = Err.ok
      · by_cases hlogger : env.loggerInit = Err.ok
        · cases htest : statics.testConfig with
          | true =>
              have hexit : env.test rounds (env.world reading) ≠ .ok (.ready ds s) := by
                unfold Env.test
                split <;> simp
              simp [herr, prelinked_ok, hlogger, preinit_ok, hexit]
          | false => simp [herr, prelinked_ok, hlogger, preinit_ok]
        · simp [herr, prelinked_ok, hlogger]
      · simp [herr, failed]

/-- The program gets through its initialisation when its options are plain, it has read the configuration
file, its logger is there, and it has processed the configuration. -/
theorem main_ready_iff : main env rounds (argv0 :: args) = .ok (.ready ds s) ↔
    ∃ us : List Usage, args = us.flatMap Usage.args ∧ Plain us ∧ ∃ reading,
      configRead env.fs plenty (env.configFname us) Reading.empty = .ok (Err.ok, reading) ∧
        env.loggerInit = Err.ok ∧ env.process rounds (env.world reading) = .ok (.ready ds s) := by
  constructor
  · intro h
    by_cases hsplit : ∃ us : List Usage, args = us.flatMap Usage.args
    · obtain ⟨us, hus⟩ := hsplit
      rw [main_of_accepted hus] at h
      split at h
      · cases h
      · rename_i hversion
        split at h
        · cases h
        · rename_i hhelp
          obtain ⟨htest, hrest⟩ := start_ready_iff.mp h
          have hplain : Plain us :=
            (plain_iff env).mpr ⟨eq_false_of_ne_true hversion, eq_false_of_ne_true hhelp, htest⟩
          exact ⟨us, hus, hplain, hrest⟩
    · obtain ⟨stderr, hexit⟩ := main_of_refused env rounds argv0 (not_exists.mp hsplit)
      rw [hexit] at h
      cases h
  · intro h
    obtain ⟨us, hus, hplain, hrest⟩ := h
    obtain ⟨hversion, hhelp, htest⟩ := (plain_iff env).mp hplain
    rw [main_of_accepted hus, hversion, hhelp]
    exact start_ready_iff.mpr ⟨htest, hrest⟩

theorem process_ready_iff {w : Processing env} :
    env.process rounds w = .ok (.ready ds s) ↔ ∃ w',
      configProcess env.handlers rounds w = .ok (Err.ok, w') ∧
        Modules.initModules env.junk (serverOf w') = (Err.ok, s) ∧ ds = w'.confList := by
  unfold Env.process
  cases hprocess : configProcess env.handlers rounds w with
  | error halt => simp
  | ok out =>
      obtain ⟨err, w'⟩ := out
      by_cases herr : err = Err.ok
      · cases hinit : Modules.initModules env.junk (serverOf w') with
        | mk err' s' =>
            by_cases herr' : err' = Err.ok
            · simp [herr, herr', hinit, eq_comm, and_comm]
            · simp [herr, herr', hinit, failed]
      · simp [herr, failed]

/-! ## The configuration file -/

/-- The directives of a file. -/
structure ConfigFile (fs : FileSystem) (fname : Bytes) (ks : List Key) : Prop where
  opens : fs.openFile fname = none
  sized : ∃ n, fs.size fname = .ok n
  text : ∃ content, fs.read fname = .ok content ∧ parsed content = .ok (Err.ok, ks)

section

variable {fs : FileSystem} {fname content : Bytes} {ks : List Key}

theorem configRead_text (hopen : fs.openFile fname = none) {n : Nat}
    (hsize : fs.size fname = .ok n) (hread : fs.read fname = .ok content) :
    ∃ err ks reading, parsed content = .ok (err, ks) ∧
      configRead fs plenty fname Reading.empty = .ok (err, reading) ∧
        reading.config.keys = ks := by
  obtain ⟨err, ks, hparse⟩ := parse_frame (fun k => (rfl : plenty k = none))
    (List.mem_append_right content (List.mem_singleton_self charNull))
  obtain ⟨config, used, hrun, hkeys, -⟩ := hparse ⟨[], [fname]⟩ 3
  refine ⟨err, ks, ⟨config, used, [], []⟩, parsed_eq hparse, ?_, hkeys⟩
  rw [configRead, readIncludedFile_ok (fileBuffer_granted rfl hopen rfl hsize rfl hread)]
  simp only [Reading.empty, Config.empty, parseFile, List.nil_append, Nat.zero_add, hrun]

/-- The configuration file is read when it can be opened, measured and read, and the scanner
accepts its content. -/
theorem configRead_iff :
    (∃ reading, configRead fs plenty fname Reading.empty = .ok (Err.ok, reading) ∧
      reading.config.keys = ks) ↔ ConfigFile fs fname ks := by
  constructor
  · intro h
    obtain ⟨reading, hrun, hkeys⟩ := h
    obtain ⟨-, hopen, -, ⟨n, hsize⟩, -, content, hread, -⟩ :=
      readIncludedFile_succeeds_iff.mp ⟨reading, hrun⟩
    obtain ⟨err, ks', reading', htext, hrun', hkeys'⟩ := configRead_text hopen hsize hread
    rw [hrun'] at hrun
    cases hrun
    exact ⟨hopen, ⟨n, hsize⟩, content, hread, by rw [htext, ← hkeys, hkeys']⟩
  · intro h
    obtain ⟨n, hsize⟩ := h.sized
    obtain ⟨content, hread, htext⟩ := h.text
    obtain ⟨err, ks', reading, htext', hrun, hkeys⟩ := configRead_text h.opens hsize hread
    rw [htext'] at htext
    cases htext
    exact ⟨reading, hrun, hkeys⟩

end

/-! ## The configuration -/

/-- Modules have been added to a server that is otherwise as it was. -/
structure Adds (w w' : Processing env)
    (new : List (Modules.Declaration Unit (Context C) (Running P ρ))) : Prop where
  reading : w'.reading = w.reading
  settings : w'.rest.1 = w.rest.1
  ring : w'.rest.2.ring = w.rest.2.ring
  tables : w'.modules = w.modules ++ new.map fun d => (declared d).load.table
  modules : w'.rest.2.modules = w.rest.2.modules ++ new.map fun d => (declared d).load

theorem changed_adds {w : Processing env} {s : ServerState P C ρ} (h : Plugged env s.modules)
    (new : List (Modules.Declaration Unit (Context C) (Running P ρ)))
    (hs : s = ⟨w.rest.2.modules ++ new.map fun d => (declared d).load, (serverOf w).rest⟩) :
    Adds w (changed w s h) new := by
  constructor
  · rfl
  · show s.rest.settings = w.rest.1
    rw [hs]
    rfl
  · show s.rest.ring = w.rest.2.ring
    rw [hs]
    rfl
  · show w.modules ++ (s.modules.drop w.rest.2.modules.length).map Modules.Module.table = _
    rw [hs, List.drop_left, List.map_map]
    rfl
  · show s.modules = _
    rw [hs]

/-- An import adds the module of its file, or it fails and adds nothing. -/
theorem importing_adds (env : Env P C ρ) (d : Directive) (w : Processing env) :
    ((env.importing d w).1 ≠ Err.ok ∧ Adds w (env.importing d w).2 []) ∨
      ∃ fname rest m, d.argv = fname :: rest ∧ env.plugIn fname = some m ∧
        Adds w (env.importing d w).2 [m] := by
  unfold Env.importing
  cases hargv : d.argv with
  | nil => exact Or.inl ⟨Err.failed_ne_ok, rfl, rfl, rfl, by simp, by simp⟩
  | cons fname rest =>
      cases import_cases w.rest.2.plugged (serverOf w).rest fname with
      | inl h =>
          obtain ⟨err, herr, heq⟩ := h
          have hstatus : (Modules.handlerImport env.objects (serverOf w) fname).1 = err :=
            congrArg Prod.fst heq
          left
          refine ⟨hstatus.trans_ne herr, changed_adds _ [] ?_⟩
          rw [List.map_nil, List.append_nil]
          exact congrArg Prod.snd heq
      | inr h =>
          obtain ⟨m, hm, heq⟩ := h
          right
          exact ⟨fname, rest, m, rfl, hm, changed_adds _ [m] (congrArg Prod.snd heq)⟩

theorem plugins_polite (env : Env P C ρ) : env.plugins.Polite where
  importing := by
    intro d w
    have hspares {new : List (Modules.Declaration Unit (Context C) (Running P ρ))}
        (h : Adds w (env.importing d w).2 new) : Spares w (env.importing d w).2 := by
      refine ⟨?_, h.settings, _, h.tables, ?_⟩
      · rw [World.confList, World.confList, h.reading]
      · intro table htable cmd hcmd
        obtain ⟨m, -, hm⟩ := List.mem_map.mp htable
        rw [← hm] at hcmd
        obtain ⟨cmd', -, hcmd'⟩ := List.mem_map.mp hcmd
        rw [← hcmd']
    cases importing_adds env d w with
    | inl h => exact hspares h.2
    | inr h =>
        obtain ⟨fname, rest, m, -, -, hadds⟩ := h
        exact hspares hadds
  handling cmd d cntx w := ⟨rfl, rfl, [], (List.append_nil _).symm, by simp⟩

theorem world_alone (reading : Reading) : Alone (env.world reading) := ⟨⟨some .server, rfl⟩, rfl⟩

theorem world_ready (reading : Reading) : Ready (env.world reading) :=
  (world_alone reading).ready

theorem world_settings (env : Env P C ρ) (reading : Reading) :
    (env.world reading).rest.1 = Configuration.corePreinit := rfl

theorem world_keys (reading : Reading) :
    (env.world reading).keys = reading.config.keys := rfl

/-- The module that a directive plugs in. -/
def Env.importOf (env : Env P C ρ) (k : Key) :
    List (Modules.Declaration Unit (Context C) (Running P ρ)) :=
  match argOf (ascii "import") k with
  | none => []
  | some fname => (env.plugIn fname).toList

theorem handlerInclude_rest {fs : FileSystem} {answers : PoolAnswers} {depth : Nat}
    {d : Directive} {w w' : Processing env} {err : Err}
    (h : handlerInclude fs answers depth d w = .ok (err, w')) : w'.rest = w.rest := by
  unfold handlerInclude at h
  split at h
  · cases h
  · split at h
    · cases h
    · cases h
      rfl

/-- Of the entries of `fpx_core_cmd` only `import` plugs in modules. -/
theorem import_entry {cmd : Command (Handler (Option CoreHandler))} (hcmd : cmd ∈ serverCmd)
    (himport : cmd.handler = .other (some .handlerImport)) :
    cmd = ⟨ascii "import", take1, .other (some .handlerImport)⟩ := by
  have hall : ∀ c ∈ serverCmd, c.handler = .other (some .handlerImport) →
      c.name = ascii "import" ∧ c.takes = take1 := by decide
  obtain ⟨hname, htakes⟩ := hall cmd hcmd himport
  cases cmd
  cases hname
  cases htakes
  cases himport
  rfl

theorem setting_entry {cmd : Command (Handler (Option CoreHandler))} (hcmd : cmd ∈ serverCmd)
    (hother : cmd.handler ≠ .other (some .handlerImport)) : cmd.name ≠ ascii "import" := by
  have hall : ∀ c ∈ serverCmd, c.handler ≠ .other (some .handlerImport) →
      c.name ≠ ascii "import" := by decide
  exact hall cmd hcmd hother

/-- An accepted directive plugs in its module and leaves the log alone. -/
theorem process_plugs {w w' : Processing env} {d : Directive} (hw : Ready w)
    (h : accepted (processDirective env.handlers) d w = some w') :
    w'.rest.2.ring = w.rest.2.ring ∧ w'.rest.2.modules =
      w.rest.2.modules ++ (env.importOf d.key).map fun d => (declared d).load := by
  have hquiet (hname : d.name ≠ ascii "import") (hrest : w'.rest.2.ring = w.rest.2.ring)
      (hmodules : w'.rest.2.modules = w.rest.2.modules) :
      w'.rest.2.ring = w.rest.2.ring ∧ w'.rest.2.modules =
        w.rest.2.modules ++ (env.importOf d.key).map fun d => (declared d).load := by
    rw [Env.importOf, argOf_of_ne hname, List.map_nil, List.append_nil]
    exact ⟨hrest, hmodules⟩
  obtain ⟨cmd, m, hfind, hargs, hrun⟩ := process_found (accepted_some h)
  have hname := find_name hfind
  cases find_core hw.core hfind with
  | inr hother =>
      have hne : d.name ≠ ascii "import" := fun heq => hother.2 (heq ▸ by decide)
      rw [hother.1] at hrun
      have hout : env.plugins.handling cmd d m.cntx w = (Err.ok, w') := Except.ok.inj hrun
      rw [← (Prod.mk.inj hout).2] at hquiet ⊢
      exact hquiet hne rfl rfl
  | inl hcmd =>
      cases hhandler : cmd.handler with
      | incl =>
          rw [include_entry hcmd hhandler] at hname hargs
          have hne : d.name ≠ ascii "import" := by
            rw [← hname]
            decide
          rw [hhandler] at hrun
          have hrest := handlerInclude_rest hrun
          exact hquiet hne (by rw [hrest]) (by rw [hrest])
      | other other =>
          obtain ⟨-, core, hcore⟩ := other_entry hcmd hhandler
          by_cases himport : core = .handlerImport
          · rw [himport] at hcore
            rw [hcore] at hhandler
            rw [import_entry hcmd hhandler] at hname hargs
            obtain ⟨arg, harg⟩ := args_one.mp hargs
            rw [hhandler] at hrun
            have hout : env.importing d w = (Err.ok, w') := Except.ok.inj hrun
            cases importing_adds env d w with
            | inl h => exact absurd (congrArg Prod.fst hout) h.1
            | inr h =>
                obtain ⟨fname, rest, m, hargv, hm, hadds⟩ := h
                rw [hout] at hadds
                have hfname : fname = arg := by
                  rw [harg] at hargv
                  exact (List.cons.inj hargv).1.symm
                have hkey : env.importOf d.key = [m] := by
                  have harg' : argOf (ascii "import") d.key = some arg := by
                    simp only [argOf, Directive.key, harg, ← hname, if_true]
                  simp only [Env.importOf, harg', ← hfname, hm, Option.toList_some]
                rw [hkey]
                exact ⟨hadds.ring, hadds.modules⟩
          · have hne : cmd.handler ≠ .other (some .handlerImport) := by
              rw [hhandler, hcore]
              intro heq
              exact himport (Option.some.inj (Handler.other.inj heq))
            rw [hhandler, hcore] at hrun
            have hrest := (setting_keeps himport hrun).2.2
            have hname' : d.name ≠ ascii "import" := hname ▸ setting_entry hcmd hne
            exact hquiet hname' (by rw [hrest]) (by rw [hrest])

/-- What the log directives, the other settings and the imports have come to in a server that
has processed its configuration. -/
structure Processed (w w' : Processing env) : Prop where
  settings : w'.rest.1 = w.rest.1.denote env.os w'.keys
  ring : w'.rest.2.ring = w.rest.2.ring
  modules : w'.rest.2.modules =
    w.rest.2.modules ++ (w'.keys.flatMap env.importOf).map fun d => (declared d).load
  levels : ∃ deepest, level (expansion env.fs (env.depth + 1)) w.keys deepest = [] ∧
    w'.keys = (List.range deepest).flatMap (level (expansion env.fs (env.depth + 1)) w.keys)

theorem process_processed {w w' : Processing env} (hw : Ready w)
    (h : configProcess env.handlers rounds w = .ok (Err.ok, w')) : Processed w w' := by
  have hround (d : Directive) (u u' : Processing env)
      (hu : Ready u ∧ u.rest.2.ring = w.rest.2.ring)
      (hacc : accepted (processDirective env.handlers) d u = some u') :
      (Ready u' ∧ u'.rest.2.ring = w.rest.2.ring) ∧
        u'.keys = u.keys ++ expansion env.fs (env.depth + 1) d.key := by
    obtain ⟨hready, hkeys⟩ := server_round (plugins_polite env) hu.1 hacc
    exact ⟨⟨hready, (process_plugs hu.1 hacc).1.trans hu.2⟩, hkeys⟩
  have hview (d : Directive) (u u' : Processing env)
      (hu : Ready u ∧ u.rest.2.ring = w.rest.2.ring)
      (hacc : accepted (processDirective env.handlers) d u = some u') :
      u'.rest.2.modules =
        u.rest.2.modules ++ (env.importOf d.key).map fun d => (declared d).load :=
    (process_plugs hu.1 hacc).2
  obtain ⟨n, hn, hend⟩ := after_of_ok rfl h
  constructor
  · exact accepted_denotes (plugins_polite env) hw h
  · exact (after_invariant hround ⟨hw, rfl⟩ hn).2
  · have hlen : w'.keys.length ≤ n := by
      rw [World.keys, List.length_map]
      exact List.getElem?_eq_none_iff.mp hend
    have hall : w'.rest.2.modules = w.rest.2.modules ++ (w'.keys.take n).flatMap _ :=
      after_view (fun u : Processing env => u.rest.2.modules)
        (fun k => (env.importOf k).map fun d => (declared d).load) hround hview ⟨hw, rfl⟩ hn
    rw [hall, List.take_of_length_le hlen, List.map_flatMap]
  · exact finished_levels hround ⟨hw, rfl⟩ hn hend

/-! ## The modules -/

def unprepared (d : Modules.Declaration Unit (Context C) (Running P ρ)) : PlugIn P C ρ :=
  { (declared d).load with
    inited := true
    inits := d.init.toList.map fun _ => (none, Err.ok) }

def Env.coreDone (env : Env P C ρ) : PlugIn P C ρ :=
  { env.core with
    inited := true
    inits := [(some .server, Err.ok)] }

omit [DecidableEq P] in
theorem initModule_imported {d : Modules.Declaration Unit (Context C) (Running P ρ)}
    {r r' : Running P ρ} {err : Err} {m : PlugIn P C ρ}
    (h : Modules.initModule Err.ok (declared d).load r = .ok (err, m, r')) :
    err = Err.ok ∧ m = unprepared d ∧ r'.settings = r.settings ∧ r'.ring = r.ring := by
  obtain ⟨name, cmd, preinit, init⟩ := d
  cases init with
  | none =>
      have hrun : Modules.initModule Err.ok
          (declared ⟨name, cmd, preinit, none⟩ : Modules.Declaration _ _ _).load r =
            .ok (Err.ok, unprepared ⟨name, cmd, preinit, none⟩, r) := rfl
      rw [hrun] at h
      cases h
      exact ⟨rfl, rfl, rfl, rfl⟩
  | some init =>
      by_cases herr : (init none r).1 = Err.ok
      · have hrun : Modules.initModule Err.ok
            (declared ⟨name, cmd, preinit, some init⟩ : Modules.Declaration _ _ _).load r =
              .ok (Err.ok, unprepared ⟨name, cmd, preinit, some init⟩,
                { r with rest := (init none r).2.rest }) := by
          simp [Modules.initModule, declared, Modules.Declaration.load, herr, unprepared]
        rw [hrun] at h
        cases h
        exact ⟨rfl, rfl, rfl, rfl⟩
      · simp [Modules.initModule, declared, Modules.Declaration.load, herr] at h

omit [DecidableEq P] in
theorem init_imported {new : List (Modules.Declaration Unit (Context C) (Running P ρ))}
    {r : Running P ρ} (h : (Pass.pass Modules.Module.inited Modules.initModule Err.ok
      (new.map fun d => (declared d).load) r).1 = none) :
    (Pass.pass Modules.Module.inited Modules.initModule Err.ok
        (new.map fun d => (declared d).load) r).2.1 = new.map unprepared ∧
      (Pass.pass Modules.Module.inited Modules.initModule Err.ok
        (new.map fun d => (declared d).load) r).2.2.settings = r.settings ∧
      (Pass.pass Modules.Module.inited Modules.initModule Err.ok
        (new.map fun d => (declared d).load) r).2.2.ring = r.ring := by
  induction new generalizing r with
  | nil => exact ⟨rfl, rfl, rfl⟩
  | cons d new ih =>
      have hflag : (declared d).load.inited = false := rfl
      rw [List.map_cons] at h ⊢
      cases hone : Modules.initModule Err.ok (declared d).load r with
      | error out =>
          rw [Pass.pass_failed hflag hone] at h
          cases h
      | ok out =>
          obtain ⟨err, m, r'⟩ := out
          obtain ⟨rfl, rfl, hsettings, hring⟩ := initModule_imported hone
          rw [Pass.pass_succeeded hflag hone] at h ⊢
          obtain ⟨hmodules, hsettings', hring'⟩ := ih h
          exact ⟨congrArg _ hmodules, hsettings'.trans hsettings, hring'.trans hring⟩

def Env.CoreStarts (env : Env P C ρ) (settings : Settings) (ring ring' : Logger P) : Prop :=
  Floppix.coreInit (sinks settings) env.thread env.startup (server settings) ring =
    some (Err.ok, ring')

theorem initModule_core (junk : Err) {r : Running P ρ} {ring : Logger P}
    (h : env.CoreStarts r.settings r.ring ring) :
    Modules.initModule junk env.core r = .ok (Err.ok, env.coreDone,
      { r with settings := started r.settings, ring := ring }) := by
  have hinit : env.core.init = some env.coreInit := rfl
  have hcalled : env.coreInit env.core.cntx r =
      (Err.ok, { r with settings := started r.settings, ring := ring }) := by
    rw [Env.CoreStarts] at h
    simp [Env.coreInit, h]
  simp only [Modules.initModule, hinit, hcalled, ne_eq, not_true, if_false]
  rfl

theorem initModule_core_ok {junk err : Err} {r r' : Running P ρ} {m : PlugIn P C ρ}
    (h : Modules.initModule junk env.core r = .ok (err, m, r')) :
    ∃ ring, env.CoreStarts r.settings r.ring ring := by
  have hinit : env.core.init = some env.coreInit := rfl
  by_contra hno
  have hbad : (env.coreInit env.core.cntx r).1 ≠ Err.ok := by
    unfold Env.coreInit
    cases hout : Floppix.coreInit (sinks r.settings) env.thread env.startup (server r.settings)
        r.ring with
    | none => exact Err.failed_ne_ok
    | some out =>
        obtain ⟨err, ring⟩ := out
        by_cases herr : err = Err.ok
        · rw [herr] at hout
          exact absurd ⟨ring, hout⟩ hno
        · simp only [herr, ne_eq, not_false_eq_true, if_true]
  simp only [Modules.initModule, hinit, if_pos hbad] at h
  cases h

theorem initModules_ok {junk : Err} {r : Running P ρ} {s : ServerState P C ρ}
    {new : List (Modules.Declaration Unit (Context C) (Running P ρ))}
    (h : Modules.initModules junk ⟨env.core :: new.map fun d => (declared d).load, r⟩ =
      (Err.ok, s)) :
    ∃ ring, env.CoreStarts r.settings r.ring ring ∧ s.modules = env.coreDone :: new.map unprepared ∧
      s.rest.settings = started r.settings ∧ s.rest.ring = ring := by
  have hstatus := Modules.init_status (congrArg Prod.fst h)
  rw [Modules.initModules_eq] at h
  have hflag : env.core.inited = false := rfl
  cases hcore : Modules.initModule junk env.core r with
  | error out =>
      rw [Pass.pass_failed hflag hcore] at hstatus
      cases hstatus
  | ok out =>
      obtain ⟨err, m, r'⟩ := out
      obtain ⟨ring, hring⟩ := initModule_core_ok hcore
      have hone := initModule_core junk hring
      rw [Pass.pass_succeeded hflag hone] at hstatus h
      obtain ⟨hmodules, hsettings, hlog⟩ := init_imported hstatus
      rw [← (Prod.mk.inj h).2]
      exact ⟨ring, hring, congrArg _ hmodules, hsettings, hlog⟩

theorem initModules_alone (junk : Err) {r : Running P ρ} {ring : Logger P}
    (h : env.CoreStarts r.settings r.ring ring) :
    ∃ s, Modules.initModules junk ⟨[env.core], r⟩ = (Err.ok, s) := by
  have hflag : env.core.inited = false := rfl
  rw [Modules.initModules_eq, Pass.pass_succeeded hflag (initModule_core junk h)]
  exact ⟨_, rfl⟩

/-! ## The server -/

/-- The directives of a file and of the files that come of it, level by level. -/
def Env.Lists (env : Env P C ρ) (file conf : List Key) : Prop :=
  ∃ deepest, level (expansion env.fs (env.depth + 1)) file deepest = [] ∧
    conf = (List.range deepest).flatMap (level (expansion env.fs (env.depth + 1)) file)

def Env.settings (env : Env P C ρ) (conf : List Key) : Settings :=
  Configuration.corePreinit.denote env.os conf

/-- What a server has made of its configuration when its modules are initialised. -/
structure Prepared (env : Env P C ρ) (conf : List Key) (ring : Logger P)
    (s : ServerState P C ρ) : Prop where
  settings : s.rest.settings = started (env.settings conf)
  ring : s.rest.ring = ring
  modules : s.modules = env.coreDone :: (conf.flatMap env.importOf).map unprepared

/-- A server that has processed its configuration, and its modules have been initialised. -/
theorem processed_prepared {reading : Reading} {w : Processing env} {s : ServerState P C ρ}
    (hrun : configProcess env.handlers rounds (env.world reading) = .ok (Err.ok, w))
    (hinit : Modules.initModules env.junk (serverOf w) = (Err.ok, s)) :
    env.Lists reading.config.keys w.keys ∧
      ∃ ring, env.CoreStarts (env.settings w.keys) (Logger.init P none) ring ∧
        Prepared env w.keys ring s := by
  have hdone := process_processed (world_ready reading) hrun
  have hserver : serverOf w = ⟨env.core :: (w.keys.flatMap env.importOf).map
      fun d => (declared d).load, (serverOf w).rest⟩ := by
    rw [serverOf, hdone.modules]
    rfl
  rw [hserver] at hinit
  obtain ⟨ring, hstarts, hmodules, hsettings, hring⟩ := initModules_ok hinit
  have hlog : (serverOf w).rest.ring = Logger.init P none := hdone.ring
  have hconf : (serverOf w).rest.settings = env.settings w.keys := by
    rw [Env.settings, ← world_settings env reading]
    exact hdone.settings
  rw [hlog, hconf] at hstarts
  rw [hconf] at hsettings
  exact ⟨hdone.levels, ring, hstarts, hsettings, hring, hmodules⟩

/-- A program behind the initialisation of its modules has been given plain options. It has read the file that they name, and
the files that come of it level by level. Its settings are what all these directives mean, and
its core module has started with them. Its log is empty, and has a worker exactly if one was
created and the server is no daemon. Behind the core module it has the modules of the import
directives in their order: none of them has been through its `preinit`, and each that has an
`init` has had it called without a context. -/
theorem main_ready_server (h : main env rounds (argv0 :: args) = .ok (.ready ds s)) :
    ∃ us : List Usage, args = us.flatMap Usage.args ∧ Plain us ∧
      ∃ file, ConfigFile env.fs (env.configFname us) file ∧
        env.Lists file (ds.map Directive.key) ∧
        ∃ worker, env.CoreStarts (env.settings (ds.map Directive.key)) (Logger.init P none)
            (Logger.init P worker) ∧
          (worker.isSome = true ↔ (env.settings (ds.map Directive.key)).daemon = false ∧
            WorkerCreated env.startup) ∧
          Prepared env (ds.map Directive.key) (Logger.init P worker) s := by
  obtain ⟨us, hus, hplain, reading, hread, -, hprocess⟩ := main_ready_iff.mp h
  obtain ⟨w, hrun, hinit, hds⟩ := process_ready_iff.mp hprocess
  obtain ⟨hlists, ring, hstarts, hprepared⟩ := processed_prepared hrun hinit
  obtain ⟨worker, hring, -, hworker⟩ := coreInit_ok hstarts
  have hfile := configRead_iff.mp ⟨reading, hread, rfl⟩
  rw [hring] at hstarts hprepared
  rw [hds]
  exact ⟨us, hus, hplain, _, hfile, hlists, worker, hstarts, hworker, hprepared⟩

/-! ## A configuration of one file -/

def oneFileEnv : Env Unit Unit Unit where
  defaultConfigPath := ascii "/floppix.conf"
  fs := listedFs [(ascii "/floppix.conf", ascii "listen 80\ndaemon off\n")] [] []
  depth := 0
  os := calmOs
  loggerInit := Err.ok
  startup := quietOs
  thread := ()
  dso := ⟨fun _ => false, fun _ => none⟩
  handling _ _ _ _ := (Err.ok, ())
  rest := ()
  junk := Err.failed

theorem oneFileEnv_main :
    ∃ ds s, main oneFileEnv 8 [ascii "floppix"] = .ok (.ready ds s) := ⟨_, _, rfl⟩

theorem main_ready_server_one_file :
    ∃ ds s, main oneFileEnv 8 [ascii "floppix"] = .ok (.ready ds s) ∧
      ∃ worker, Prepared oneFileEnv (ds.map Directive.key) (Logger.init Unit worker) s := by
  obtain ⟨ds, s, hmain⟩ := oneFileEnv_main
  obtain ⟨us, -, -, file, -, -, worker, -, -, hprepared⟩ := main_ready_server hmain
  exact ⟨ds, s, hmain, worker, hprepared⟩

end Floppix.Program
