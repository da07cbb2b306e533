import Floppix.Lib.Ledger
import Floppix.System.Pool.Emptying
import Floppix.System.Pool.InitialSize
import Floppix.System.Pool.Sparing

/-! # Every cleanup of a pool runs once

The cleanups of a new pool are a ledger: a registration is an entry in it, and running or
removing a cleanup settles the newest pending entry with the data and the handler. The
calls on the pool follow the ledger, and clearing or destroying the pool calls what is
still pending, the newest first.
-/

namespace Floppix.Pools

open Layout LinkedList Outcome Bookkeeping

variable {P : Platform} {env : Environment P} {m : Memory} {p : Nat} {pool : Pool}
  {forest : Forest} {ps : List Nat} {pendings frees : Nat → List Ref} {s s₀ s' : State}
  {k thread size rounds depth : Nat} {parent : Option Nat} {l : Ledger Entry}

inductive CleanupOp where
  | add (data id : Nat)
  | run (data : Nat) (handler : Handler)
  | remove (data : Nat) (handler : Handler)

def CleanupOp.perform (env : Environment P) (rounds p : Nat) (s : State) :
    CleanupOp → Except Fault State
  | .add data id => cleanupAdd env p data (.user id) s
  | .run data handler => cleanupRun env rounds p data handler s
  | .remove data handler => cleanupRemove P rounds p data handler s

def CleanupOp.performAll (env : Environment P) (rounds p : Nat) (ops : List CleanupOp)
    (s : State) : Except Fault State :=
  ops.foldlM (fun s op => op.perform env rounds p s) s

def CleanupOp.act : CleanupOp → Ledger.Act Entry
  | .add data id => .register (data, .user id)
  | .run data handler => .call (data, handler)
  | .remove data handler => .remove (data, handler)

def CleanupOp.ledger (ops : List CleanupOp) : Ledger Entry := Ledger.after (ops.map act)

inductive Ending where
  | clear
  | destroy

def Ending.perform (env : Environment P) (rounds depth thread p : Nat) (s : State) :
    Ending → Except Fault State
  | .clear => Pools.clear env rounds depth thread p s
  | .destroy => Pools.destroy env rounds depth thread p s

/-! ## One call -/

structure Follows (env : Environment P) (ps : List Nat) (p k : Nat) (l : Ledger Entry)
    (s₀ s : State) : Prop where
  sound : l.Sound
  tidy : Tidy env ps p (l.values l.pending) k s
  called : called s.events = called s₀.events ++ l.values l.called

theorem entries_length_le (h : Held P env.contents s.mem ps pendings frees) (hp : p ∈ ps)
    (hentries : entries s.mem (pendings p) = l.values l.pending) :
    (pendings p).length ≤ l.pending.length := by
  obtain ⟨pool, hpool, hok, -⟩ := h.pools p hp
  rw [← length_entries hok.pendingChain, hentries]
  exact List.length_filterMap_le ..

theorem Added.tidy {pool' : Pool} {r : Ref} {rest : List Ref} {e : Entry}
    (h : Added env ps pendings frees p e pool pool' r rest s s')
    (hspares : Spares env ps p s.mem pendings frees)
    (hroom : Room P pool (pendings p) (frees p) (k + 1)) :
    Tidy env ps p (e :: entries s.mem (pendings p)) k s' := by
  refine ⟨⟨pool', _, _, h.here, h.held, hspares.elsewhere h.elsewhere, ?_, ?_⟩⟩
  · have hlist : r :: pendings p = [r] ++ pendings p := rfl
    rw [Function.update_self, hlist, entries_append, h.entry, h.pending.entries]
    rfl
  · rw [Function.update_self, Function.update_self]
    exact h.room k hroom

theorem CleanupOp.perform_follows (hp : p ∈ ps) (h : Follows env ps p (k + 1) l s₀ s)
    (hrounds : l.pending.length ≤ rounds) (op : CleanupOp) :
    Yields (¬ env.Succeeds) (op.perform env rounds p s) (Follows env ps p k (l.act op.act) s₀) := by
  obtain ⟨hsound, ⟨pool, pendings, frees, hpool, hheld, hspares, hentries, hroom⟩, hcalled⟩ := h
  have hsound' := hsound.act op.act
  have hroom' := hroom.mono (Nat.le_succ k)
  have hlength := Nat.le_trans (entries_length_le hheld hp hentries) hrounds
  cases op with
  | add data id =>
      apply (cleanupAdd_added hheld hp hpool (hheld.addSafe hp hpool hroom)).mono
      intro s' _ hs'
      obtain ⟨pool', r, rest, hadded⟩ := hs'
      refine ⟨hsound', ?_, ?_⟩
      · have htidy := hadded.tidy hspares hroom
        rw [hentries] at htidy
        exact (Ledger.register_pending hsound (data, Handler.user id)).symm ▸ htidy
      · have hsame := Ledger.register_called hsound (data, Handler.user id)
        exact (hadded.aside.called.trans hcalled).trans (congrArg _ hsame.symm)
  | run data handler =>
      have hpending := Ledger.call_pending (l := l) (data, handler)
      have hcalls := Ledger.call_called (l := l) (data, handler)
      by_cases he : (data, handler) ∈ entries s.mem (pendings p)
      · apply (cleanupRun_spared hheld hp hpool hspares hroom' hlength he).mono
        intro s' _ hs'
        obtain ⟨hcalled', htidy⟩ := hs'
        rw [hentries] at he htidy
        rw [if_pos he] at hcalls
        refine ⟨hsound', hpending.symm ▸ htidy, ?_⟩
        rw [hcalled', hcalled, List.append_assoc]
        exact congrArg _ hcalls.symm
      · obtain ⟨s', hok, hcalled', hlisted⟩ :=
          cleanupRun_missing hheld hp hpool hroom' hlength he
        have htidy := hlisted.tidy hspares
        rw [hentries] at he htidy
        rw [if_neg he, List.append_nil] at hcalls
        rw [List.erase_of_not_mem he] at hpending
        rw [CleanupOp.perform, hok]
        refine Yields.ok ⟨hsound', hpending.symm ▸ htidy, ?_⟩
        exact (hcalled'.trans hcalled).trans (congrArg _ hcalls.symm)
  | remove data handler =>
      have hpending := Ledger.remove_pending (l := l) (data, handler)
      have hcalls := Ledger.remove_called (l := l) (data, handler)
      obtain ⟨s', hok, hcalled', hlisted⟩ := cleanupRemove_relisted data handler hheld hp
        hpool hroom' hlength
      have htidy := hlisted.tidy hspares
      rw [hentries] at htidy
      rw [CleanupOp.perform, hok]
      refine Yields.ok ⟨hsound', hpending.symm ▸ htidy, ?_⟩
      exact (hcalled'.trans hcalled).trans (congrArg _ hcalls.symm)

/-! ## All calls -/

theorem CleanupOp.performAll_follows {ops : List CleanupOp} (hp : p ∈ ps)
    (h : Follows env ps p (ops.length + k) l s₀ s)
    (hrounds : l.pending.length + ops.length ≤ rounds) :
    Yields (¬ env.Succeeds) (performAll env rounds p ops s)
      (Follows env ps p k ((ops.map act).foldl Ledger.act l) s₀) := by
  induction ops generalizing l s with
  | nil =>
      rw [List.length_nil, Nat.zero_add] at h
      exact Yields.ok h
  | cons op ops ih =>
      rw [List.length_cons, Nat.add_right_comm] at h
      rw [List.length_cons] at hrounds
      rw [performAll, List.foldlM_cons]
      refine (op.perform_follows hp h (by omega)).bind fun s₁ _ h₁ => ih h₁ ?_
      have hact := l.length_act op.act
      omega

theorem CleanupOp.perform_places (op : CleanupOp) (rounds p : Nat) (s : State) :
    Yields True (op.perform env rounds p s) fun s' => SamePlaces s.mem s'.mem := by
  cases op with
  | add data id => exact cleanupAdd_places env p data _ s
  | run data handler => exact cleanupRun_places env rounds p data handler s
  | remove data handler => exact cleanupRemove_places rounds p data handler s

theorem CleanupOp.performAll_places (ops : List CleanupOp) (rounds p : Nat) (s : State) :
    Yields True (performAll env rounds p ops s) fun s' => SamePlaces s.mem s'.mem := by
  refine Yields.foldlM (I := fun s' : State => SamePlaces s.mem s'.mem) (SamePlaces.refl _) ?_
  exact fun s₁ op h₁ => (op.perform_places rounds p s₁).mono fun _ _ h₂ => h₁.trans h₂

/-! ## The last call -/

theorem forChildren_none (visit : Nat → State → Except Fault State) (rounds : Nat) (s : State) :
    forChildren visit rounds none s = .ok s := by
  cases rounds <;> rfl

theorem cleanupRunAll_calls (h : Held P env.contents s.mem ps pendings frees) (hp : p ∈ ps)
    (hpool : s.mem.pools p = some pool) (hspares : Spares env ps p s.mem pendings frees)
    (hrounds : (pendings p).length ≤ rounds) :
    Yields (¬ env.Succeeds) (cleanupRunAll env rounds p s) fun s' =>
      (∃ pool', s'.mem.pools p = some pool' ∧ pool'.child = pool.child) ∧
        called s'.events = called s.events ++ entries s.mem (pendings p) := by
  have hrun : Yields (rounds < (pendings p).length ∨ _) (cleanupRunAll env rounds p s) _ :=
    (cleanupRunAll_spared h hp hpool hspares).and (cleanupRunAll_places env rounds p s)
  refine (hrun.weaken fun hfail => hfail.resolve_left (Nat.not_lt.mpr hrounds)).mono
    fun s' _ hs' => ?_
  obtain ⟨⟨-, -, -, -, hcalled⟩, hplaces⟩ := hs'
  obtain ⟨pool', hpool'⟩ := (hplaces.some_iff p).mpr ⟨pool, hpool⟩
  exact ⟨⟨pool', hpool', hplaces.child hpool hpool'⟩, hcalled⟩

theorem Ending.perform_calls (h : Held P env.contents s.mem ps pendings frees) (hp : p ∈ ps)
    (hpool : s.mem.pools p = some pool) (hspares : Spares env ps p s.mem pendings frees)
    (hchild : pool.child = none) (howner : P.threadSafety = true → pool.owner = thread)
    (hrounds : (pendings p).length ≤ rounds) (hdepth : 0 < depth) (ending : Ending) :
    Yields (¬ env.Succeeds) (ending.perform env rounds depth thread p s) fun s' =>
      called s'.events = called s.events ++ entries s.mem (pendings p) := by
  obtain ⟨depth, rfl⟩ := Nat.exists_eq_add_of_lt hdepth
  have hown : ¬ (P.threadSafety = true ∧ pool.owner ≠ thread) := fun h => h.2 (howner h.1)
  cases ending with
  | clear =>
      have hlock := Aside.lock (P := P) p s pool.mutex
      have hmem : (s.lock P pool.mutex).mem = s.mem := State.lock_mem ..
      rw [Ending.perform, Pools.clear, State.getPool_bind hpool, if_neg hown]
      rw [← hmem] at h hpool hspares
      apply (cleanupRunAll_calls h hp hpool hspares hrounds).bind
      intro s₁ _ h₁
      obtain ⟨⟨pool₁, hpool₁, hchild₁⟩, hcalled₁⟩ := h₁
      rw [State.getPool_bind hpool₁, hchild₁, hchild, forChildren_none]
      change Yields _ (s₁.getPool p >>= _) _
      rw [State.getPool_bind hpool₁]
      apply Yields.ok
      rw [((Aside.setPool p pool₁.rewind s₁).trans (.unlock p _ _)).called, hcalled₁, hlock.called,
        hmem]
  | destroy =>
      have hlog : called (s.log (.readPool p)).events = called s.events := called_log rfl s
      rw [Ending.perform, Pools.destroy, State.getPool_bind hpool]
      change Yields _ (if P.threadSafety = true ∧ pool.owner ≠ thread then _ else _) _
      rw [if_neg hown]
      refine (cleanupRunAll_calls (s := s.log (.readPool p)) h hp hpool hspares hrounds).bind
        fun s₁ _ h₁ => ?_
      obtain ⟨⟨pool₁, hpool₁, hchild₁⟩, hcalled₁⟩ := h₁
      rw [State.getPool_bind hpool₁, hchild₁, hchild, forChildren_none]
      change Yields _ (destroySlots p _ s₁) _
      rw [destroySlots_eq _ hpool₁]
      apply Yields.ok
      rw [called_append, called_slotEvents, List.append_nil, hcalled₁, hlog]
      rfl

/-! ## A new pool -/

theorem Forest.mem_joined {forest : Forest} (h : forest.members.Nodup) (p : Nat)
    (hparent : ∀ q, parent = some q → q ∈ forest.members) :
    p ∈ (forest.joined parent (some p)).members ∧
      ∀ q ∈ forest.members, q ∈ (forest.joined parent (some p)).members := by
  cases parent with
  | none => exact ⟨List.mem_cons_self .., fun q hq => List.mem_cons_of_mem p hq⟩
  | some q =>
      have hperm : (forest.addChild q p).members.Perm (p :: forest.members) :=
        Forest.addChild_perm h (hparent q rfl)
      exact ⟨hperm.mem_iff.mpr (List.mem_cons_self ..), fun q hq =>
        hperm.mem_iff.mpr (List.mem_cons_of_mem p hq)⟩

/-- The handlers do not touch the pool. Where they register in another one, every cleanup
node of that pool lies in a block of its own. -/
def LeaveAlone (env : Environment P) (forest : Forest) (p : Nat) (m : Memory) : Prop :=
  ∀ id data, ∀ reg ∈ env.handler id data, reg.pool ∈ forest.members ∧ reg.pool ≠ p ∧
    ∀ pool, m.pools reg.pool = some pool → ∀ r, Listed m pool r → Anchored P pool r

theorem Environment.Quiet.leaveAlone (hq : env.Quiet) (forest : Forest) (p : Nat) (m : Memory) :
    LeaveAlone env forest p m := fun id data reg hreg => by
  rw [hq] at hreg
  cases hreg

theorem LeaveAlone.spares (h : LeaveAlone env forest p m) (hsub : forest.members ⊆ ps)
    (hheld : Held P env.contents m ps pendings frees) : Spares env ps p m pendings frees := by
  intro id data reg hreg
  obtain ⟨hmem, hne, hanchored⟩ := h id data reg hreg
  refine ⟨hsub hmem, hne, fun pool hpool k => Or.inl fun r hr => hanchored pool hpool r ?_⟩
  rwa [(hheld.poolOk (hsub hmem) hpool).listed_eq]

theorem create_follows (h : Inv P env.contents thread s.mem forest pendings frees)
    (hparent : ∀ q, parent = some q → q ∈ forest.members)
    (hcreate : create env thread size parent s = .ok (Err.ok, some p, s₀))
    (halone : LeaveAlone env forest p s₀.mem) (k : Nat) :
    p ∈ (forest.joined parent (some p)).members ∧
      (∃ pool, s₀.mem.pools p = some pool ∧ pool.child = none ∧
        (P.threadSafety = true → pool.owner = thread)) ∧
      Follows env (forest.joined parent (some p)).members p k Ledger.empty s₀ s₀ := by
  obtain ⟨hp, hsub⟩ := Forest.mem_joined h.nodup p hparent
  obtain ⟨pendings₀, frees₀, hinv⟩ := (create_spec h hparent).of_ok hcreate
  have hsound : ∀ q, parent = some q → ∃ old, PoolSound P s.mem q old := fun q hq => by
    obtain ⟨old, hold, -, -⟩ := h.held.pools q (hparent q hq)
    exact ⟨old, h.held.poolSound (hparent q hq) hold⟩
  obtain ⟨mem, pool, n, rfl, -, hopened⟩ := create_opened hsound hcreate
  have hok := hinv.held.poolOk hp hopened.here
  have hpending := hok.pendingChain
  have hfree := hok.freeChain
  rw [hopened.cleanups] at hpending
  rw [hopened.free] at hfree
  refine ⟨hp, ⟨pool, hopened.here, hopened.child, hinv.owner _ hp pool hopened.here⟩,
    Ledger.sound_empty, ⟨pool, pendings₀, frees₀, hopened.here, hinv.held,
      halone.spares hsub hinv.held, ?_, Or.inl fun r hr => ?_⟩, (List.append_nil _).symm⟩
  · rw [hpending.eq_nil]
    rfl
  · rw [hpending.eq_nil, hfree.eq_nil] at hr
    cases hr

/-! ## The whole history -/

theorem Follows.lists (h : Follows env ps p k l s₀ s) (hp : p ∈ ps) :
    ListsHold s.mem p (l.values l.pending) := by
  obtain ⟨pool, pendings, frees, hpool, hheld, -, hentries, -⟩ := h.tidy.lists
  exact hentries ▸ hheld.listsHold hp

structure RunsOnce (env : Environment P) (rounds p : Nat) (ops : List CleanupOp)
    (s₀ s₁ s₂ : State) : Prop where
  before : called s₁.events = called s₀.events ++
    (CleanupOp.ledger ops).values (CleanupOp.ledger ops).called
  ending : called s₂.events = called s₁.events ++
    (CleanupOp.ledger ops).values (CleanupOp.ledger ops).pending
  sound : (CleanupOp.ledger ops).Sound
  once : ∀ i, i < (CleanupOp.ledger ops).registered.length →
    ((CleanupOp.ledger ops).called ++ (CleanupOp.ledger ops).pending).count i =
      if i ∈ (CleanupOp.ledger ops).removed then 0 else 1
  lists : ∀ done rest, ops = done ++ rest → ∃ s',
    CleanupOp.performAll env rounds p done s₀ = .ok s' ∧
    ListsHold s'.mem p ((CleanupOp.ledger done).values (CleanupOp.ledger done).pending)

/-- Of the cleanups of a new pool each that is not removed is called once, the pending ones
by the last call, the newest first. -/
theorem cleanups_run_once (h : Inv P env.contents thread s.mem forest pendings frees)
    (hsucceeds : env.Succeeds) (hparent : ∀ q, parent = some q → q ∈ forest.members)
    (hcreate : create env thread size parent s = .ok (Err.ok, some p, s₀))
    (halone : LeaveAlone env forest p s₀.mem) (ops : List CleanupOp) (ending : Ending)
    (hrounds : ops.length ≤ rounds) (hdepth : 0 < depth) :
    ∃ s₁ s₂, CleanupOp.performAll env rounds p ops s₀ = .ok s₁ ∧
      ending.perform env rounds depth thread p s₁ = .ok s₂ ∧
      RunsOnce env rounds p ops s₀ s₁ s₂ := by
  have hrun : ∀ done : List CleanupOp, done.length ≤ ops.length →
      ∃ s₁, CleanupOp.performAll env rounds p done s₀ = .ok s₁ ∧
        Follows env (forest.joined parent (some p)).members p 0 (CleanupOp.ledger done) s₀ s₁ := by
    intro done hdone
    obtain ⟨hp, -, hfollows⟩ := create_follows h hparent hcreate halone (done.length + 0)
    have hall : Yields _ (CleanupOp.performAll env rounds p done s₀) _ :=
      CleanupOp.performAll_follows hp hfollows (by
      change 0 + _ ≤ _
      omega)
    exact hall.exists_ok (not_not_intro hsucceeds)
  obtain ⟨hp, ⟨pool₀, hpool₀, hchild, howner⟩, -⟩ :=
    create_follows h hparent hcreate halone 0
  obtain ⟨s₁, hok₁, hfollows₁⟩ := hrun ops (Nat.le_refl _)
  obtain ⟨pool₁, pendings₁, frees₁, hpool₁, hheld₁, hspares₁, hentries₁, -⟩ := hfollows₁.tidy.lists
  have hplaces₁ := (CleanupOp.performAll_places ops rounds p s₀).of_ok hok₁
  have hlength₁ : (pendings₁ p).length ≤ rounds := by
    have hle := entries_length_le hheld₁ hp hentries₁
    have hledger := Ledger.length_foldl (ops.map CleanupOp.act) Ledger.empty
    rw [List.length_map] at hledger
    change _ ≤ 0 + _ at hledger
    exact Nat.le_trans (Nat.le_trans hle hledger) (by omega)
  obtain ⟨s₂, hok₂, hcalled₂⟩ := (ending.perform_calls hheld₁ hp hpool₁ hspares₁
    ((hplaces₁.child hpool₀ hpool₁).trans hchild)
    (fun hts => (hplaces₁.owner hpool₀ hpool₁).trans (howner hts)) hlength₁ hdepth).exists_ok
    (not_not_intro hsucceeds)
  rw [hentries₁] at hcalled₂
  refine ⟨s₁, s₂, hok₁, hok₂, ⟨hfollows₁.called, hcalled₂, hfollows₁.sound,
    fun i hi => hfollows₁.sound.once hi, fun done rest hsplit => ?_⟩⟩
  obtain ⟨s', hok', hfollows'⟩ := hrun done (by rw [hsplit, List.length_append]; omega)
  exact ⟨s', hok', hfollows'.lists hp⟩

def duplicates : List CleanupOp :=
  [.add 7 1, .add 8 1, .add 7 1, .run 7 (.user 1), .remove 8 (.user 1), .add 9 2]

example : (CleanupOp.ledger duplicates).called = [2] ∧
    (CleanupOp.ledger duplicates).removed = [1] ∧
    (CleanupOp.ledger duplicates).pending = [3, 0] := by decide

theorem cleanups_run_once_first : ∃ s₀ s₁ s₂, firstState = some s₀ ∧
    CleanupOp.performAll (bump lp64 .inMemory) 6 firstPool duplicates s₀ = .ok s₁ ∧
    Ending.destroy.perform (bump lp64 .inMemory) 6 1 1 firstPool s₁ = .ok s₂ ∧
    RunsOnce (bump lp64 .inMemory) 6 firstPool duplicates s₀ s₁ s₂ := by
  have hcreated : ∃ s₀, firstState = some s₀ ∧
      create (bump lp64 .inMemory) 1 100 none State.empty = .ok (Err.ok, some firstPool, s₀) :=
    ⟨_, rfl, rfl⟩
  obtain ⟨s₀, hs₀, hcreate⟩ := hcreated
  obtain ⟨s₁, s₂, hok₁, hok₂, honce⟩ := cleanups_run_once (inv_empty .inMemory 1)
    ⟨fun _ _ _ => ⟨_, rfl⟩, fun _ => rfl⟩ (by simp) hcreate
    ((bump_quiet _).leaveAlone _ _ _) duplicates .destroy (Nat.le_refl 6) Nat.one_pos
  exact ⟨s₀, s₁, s₂, hs₀, hok₁, hok₂, honce⟩

end Floppix.Pools
