import Floppix.Core.Log.Progress
import Floppix.Core.Server

/-! # The log after the startup

What `fpx_core_init` leaves of the log ring and its worker. A daemon is the
grandchild of the process that started the worker, and no thread but the caller
comes with it.
-/

namespace Floppix

open Logging Transition

variable {P : Type} [DecidableEq P]

def workerThreadCalls : List PthreadCall := [.attrInit, .attrSetscope, .attrSetdetachstate, .create]

def WorkerCreated (os : StartupOs P) : Prop := ∀ call ∈ workerThreadCalls, os.pthread call = .ok ()

omit [DecidableEq P] in
theorem threadInit_started (os : StartupOs P) :
    (threadInit os.pthread (threadScopeSystem ||| threadCreateDetached) 0).2 = true ↔
      WorkerCreated os := by
  have hbits : bitIsSet (threadScopeSystem ||| threadCreateDetached) threadScopeSystem = true ∧
      bitIsSet (threadScopeSystem ||| threadCreateDetached) threadCreateDetached = true := by
    decide
  simp only [threadInit, threadAttempt, hbits.1, hbits.2, if_true, WorkerCreated,
    workerThreadCalls, List.forall_mem_cons, List.not_mem_nil, false_imp_iff, implies_true,
    and_true]
  cases h1 : os.pthread .attrInit <;> cases h2 : os.pthread .attrSetscope <;>
    cases h3 : os.pthread .attrSetdetachstate <;> cases h4 : os.pthread .create <;>
    simp [bind, Except.bind]

variable {sinks : List Log} {main : P} {os : StartupOs P} {server : Server} {s t : Logger P}

/-! ## The ring during the startup -/

/-- With an empty ring and no global logger the worker gets past its greeting and then
waits for the first message. -/
theorem asleep_step {w : Option WorkerPc} {a : Action P} (hw : w.any WorkerPc.inProgress = false)
    (ha : a.ofWorker = true) (hs : step sinks (Logger.init P w) a = some t) :
    w.isSome = true ∧ t = Logger.init P (some .waitFull) := by
  cases a with
  | call p c => cases ha
  | setGlobal => cases ha
  | deposit u =>
      cases u with
      | none => simp [step, Logger.init] at hs
      | some p => cases ha
  | greet c =>
      simp only [step, Logger.init, Logger.logError1] at hs
      split at hs
      · rename_i hst
        cases hs
        exact ⟨by simp [hst.1], rfl⟩
      · cases hs
  | worker failure =>
      cases w with
      | none => simp [step, Logger.init] at hs
      | some pc =>
          cases pc <;> simp only [Option.any_some, WorkerPc.inProgress, reduceCtorEq] at hw
          · simp [step, Logger.init, workerStep] at hs
          · simp [step, Logger.init, workerStep] at hs

theorem asleep_run {w : Option WorkerPc} {as : List (Action P)}
    (hw : w.any WorkerPc.inProgress = false) (has : ∀ a ∈ as, a.ofWorker = true)
    (hr : run (step sinks) (Logger.init P w) as = some t) :
    ∃ w', t = Logger.init P w' ∧ w'.any WorkerPc.inProgress = false ∧ w'.isSome = w.isSome := by
  induction as generalizing w with
  | nil =>
      cases hr
      exact ⟨w, rfl, hw, rfl⟩
  | cons a as ih =>
      obtain ⟨m, hm, hrest⟩ := run_cons_some hr
      obtain ⟨hsome, rfl⟩ := asleep_step hw (has a (List.mem_cons_self ..)) hm
      obtain ⟨w', ht, hw', hs'⟩ := ih rfl (fun b hb => has b (List.mem_cons_of_mem a hb)) hrest
      exact ⟨w', ht, hw', hs'.trans hsome.symm⟩

theorem loggerStart_ok (h : loggerStart sinks os (Logger.init P none) = some (Err.ok, s)) :
    ∃ w, s = Logger.init P w ∧ w.any WorkerPc.inProgress = false ∧
      (w.isSome = true ↔ WorkerCreated os) := by
  unfold loggerStart at h
  cases hp : os.pallocTid with
  | some e =>
      simp only [hp, Option.some.injEq, Prod.mk.injEq] at h
      exact absurd h.1 e.code_ne_ok
  | none =>
      rw [← threadInit_started os]
      cases hth : threadInit os.pthread (threadScopeSystem ||| threadCreateDetached) 0 with
      | mk err started =>
          simp only [hp, hth] at h
          split at h
          · rename_i hne
            cases h
            exact absurd rfl hne
          · obtain ⟨u, hu, hus⟩ := Option.map_eq_some_iff.mp h
            cases hus
            have hof : ∀ a ∈ os.whileAsleep.filter Action.ofWorker, a.ofWorker = true :=
              fun a ha => (List.mem_filter.mp ha).2
            cases started with
            | true =>
                obtain ⟨w, hw, hin, hsome⟩ := asleep_run (w := some .start) rfl hof hu
                exact ⟨w, hw, hin, by simp [hsome]⟩
            | false =>
                obtain ⟨w, hw, hin, hsome⟩ := asleep_run (w := none) rfl hof hu
                exact ⟨w, hw, hin, by simp [hsome]⟩

omit [DecidableEq P] in
theorem processBecomeDaemon_ok {σ : Type} {pos : ProcessOs} {fork : σ → σ} {u v : σ}
    (h : processBecomeDaemon pos fork u = (Err.ok, v)) : v = fork (fork u) := by
  unfold processBecomeDaemon at h
  split at h
  · rename_i e _
    exact absurd (Prod.ext_iff.mp h).1 e.code_ne_ok
  · simp only at h
    split at h
    · rename_i e _
      exact absurd (Prod.ext_iff.mp h).1 e.code_ne_ok
    · split at h
      · rename_i e _
        exact absurd (Prod.ext_iff.mp h).1 e.code_ne_ok
      · exact (Prod.ext_iff.mp h).2.symm

theorem fork_init (main : P) (w : Option WorkerPc) :
    (Logger.init P w).fork main = Logger.init P none := by
  simp [Logger.fork, Logger.init]

/-- After a successful `fpx_core_init` the ring is empty, and a worker is there exactly
when one was created and the process did not fork. -/
theorem coreInit_ok (h : coreInit sinks main os server (Logger.init P none) = some (Err.ok, s)) :
    ∃ w, s = Logger.init P w ∧ w.any WorkerPc.inProgress = false ∧
      (w.isSome = true ↔ server.daemon = false ∧ WorkerCreated os) := by
  unfold coreInit at h
  split at h
  · cases h
  · simp only at h
    iterate 4
      split at h
      · rename_i hne
        simp only [Option.some.injEq, Prod.mk.injEq] at h
        exact absurd h.1 hne
    obtain ⟨⟨err, m⟩, hm, hrest⟩ := Option.map_eq_some_iff.mp h
    simp only at hrest
    split at hrest
    · rename_i hne
      cases hrest
      exact absurd rfl hne
    · rename_i herr
      rw [not_not] at herr
      subst herr
      obtain ⟨w, rfl, hw, hsome⟩ := loggerStart_ok hm
      cases hd : server.daemon with
      | false =>
          simp only [hd, Bool.false_eq_true, if_false] at hrest
          cases hrest
          exact ⟨w, rfl, hw, by simp [hsome]⟩
      | true =>
          simp only [hd, if_true] at hrest
          have hfork := processBecomeDaemon_ok hrest
          rw [fork_init, fork_init] at hfork
          exact ⟨none, hfork, rfl, by simp⟩

/-! ## Logging after the startup -/

omit [DecidableEq P] in
theorem live_init {w : Option WorkerPc} (hw : w.isSome = true) : Live (Logger.init P w) where
  alive := hw
  beforeGreeting := fun _ => rfl
  room := fun _ => by simp [Logger.init, maxLogSlots]

variable [Fintype P]

/-- Along every run that leaves the worker a slot for its own calls, no producer is
stranded in a process that has a worker. -/
theorem never_stranded {w : Option WorkerPc} (hin : w.any WorkerPc.inProgress = false)
    (hw : w.isSome = true) {as : List (Action P)}
    (hC : Meets (step sinks) (RoomForOwnCalls sinks) (Logger.init P w) as) :
    Visits (step sinks) (fun t => ¬ Stranded sinks t) (Logger.init P w) as := by
  have hvis := visits_of_meets (I := fun t => Inv sinks t ∧ Live t)
    (fun _ _ _ hs hCa hi => ⟨inv_step hs hi.1, live_step hs hCa hi.2⟩) hC
    ⟨inv_init sinks w hin, live_init hw⟩
  exact hvis.mono fun t ht => not_stranded ht.1 ht.2.alive ht.2.room

/-- Logging survives a successful startup exactly when the process did not become a
daemon and its worker thread was really created: then the worker stays alive, and no
producer waits for a slot that can never come. -/
theorem logging_survives_iff
    (h : coreInit sinks main os server (Logger.init P none) = some (Err.ok, s)) :
    ((∀ as, Meets (step sinks) (RoomForOwnCalls sinks) s as →
        Visits (step sinks) (fun t => ¬ Stranded sinks t) s as) ↔
      server.daemon = false ∧ WorkerCreated os) ∧
    ((∀ as, Visits (step sinks) (fun t => t.worker.isSome = true) s as) ↔
      server.daemon = false ∧ WorkerCreated os) := by
  obtain ⟨w, rfl, hin, hsome⟩ := coreInit_ok h
  rw [← hsome]
  constructor
  · constructor
    · intro hall
      by_contra hw
      have hnone : w = none := by simpa using hw
      subst hnone
      obtain ⟨as, t, hr, hst⟩ :=
        strands sinks (Logger.init P none) main sampleCall rfl rfl rfl
      exact (hall as (meets_of_no_worker rfl rfl as)).last hr hst
    · exact fun hw as hC => never_stranded hin hw hC
  · constructor
    · exact fun hall => (hall []).head
    · exact fun hw as => visits_of_invariant
        (fun u a t hs hu => (worker_isSome_step hs).trans hu) as hw

/-- An environment in which nothing fails, with a worker that has not yet greeted when
the process forks. -/
def quietOs : StartupOs Unit where
  process := ⟨none, none, none, fun _ => none, 1000, fun _ => none, fun _ => none, 1000,
    fun _ => none, fun _ => none⟩
  pthread := fun _ => .ok ()
  listenerBind := fun _ => Err.ok
  listenerOpen := fun _ => Err.ok
  pallocTid := none
  whileAsleep := []

def daemonServer : Server := ⟨[⟨ascii "0.0.0.0", ascii "80"⟩], true, ascii "/", none, none⟩

theorem logging_survives_foreground :
    ∃ s, coreInit [⟨logDebug⟩] () quietOs { daemonServer with daemon := false }
        (Logger.init Unit none) = some (Err.ok, s) ∧
      ∀ as, Meets (step [⟨logDebug⟩]) (RoomForOwnCalls [⟨logDebug⟩]) s as →
        Visits (step [⟨logDebug⟩]) (fun t => ¬ Stranded [⟨logDebug⟩] t) s as := by
  refine ⟨Logger.init Unit (some .start), rfl, ?_⟩
  have h : coreInit [⟨logDebug⟩] () quietOs { daemonServer with daemon := false }
      (Logger.init Unit none) = some (Err.ok, Logger.init Unit (some .start)) := rfl
  exact (logging_survives_iff h).1.mpr ⟨rfl, fun _ _ => rfl⟩

/-- The default server becomes a daemon, and then its main thread waits forever at the
33rd message. -/
theorem daemon_strands :
    ∃ s, coreInit [⟨logDebug⟩] () quietOs daemonServer (Logger.init Unit none) =
        some (Err.ok, s) ∧
      s.worker = none ∧ ∃ t, Reaches (step [⟨logDebug⟩]) s t ∧ Stranded [⟨logDebug⟩] t := by
  refine ⟨Logger.init Unit none, ?_, rfl, ?_⟩
  · show some (Err.ok, ((Logger.init Unit (some .start)).fork ()).fork ()) = _
    rw [fork_init, fork_init]
  · obtain ⟨as, t, hr, hst⟩ := strands [⟨logDebug⟩] (Logger.init Unit none) ()
      sampleCall rfl rfl rfl
    exact ⟨t, ⟨as, hr⟩, hst⟩

end Floppix
