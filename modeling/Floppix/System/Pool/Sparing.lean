import Floppix.System.Pool.Matching

/-! # Handlers that leave their own pool alone

Such a handler may register cleanups in other pools. The lists of its own pool, and the
nodes in them, stay as they are while it runs: what is done to another pool neither
depends on this one nor changes it.
-/

namespace Floppix.Pools

open Layout LinkedList Outcome

variable {P : Platform} {env : Environment P} {m : Memory} {p q : Nat} {pool pool' own : Pool}
  {ps : List Nat} {pendings frees pendings' frees' : Nat → List Ref} {s s' s'' : State} {r : Ref}
  {c : CleanupNode} {ptr : Option Ref} {k data rounds : Nat} {handler : Handler} {e : Entry}

/-! ## Two pools -/

theorem State.setPool_comm (s : State) (pool pool' : Pool) (h : p ≠ q) :
    (s.setPool p pool).setPool q pool' = (s.setPool q pool').setPool p pool := by
  rw [State.setPool, State.setPool_mem, Memory.setPool_comm _ _ _ h]
  rfl

theorem State.setPool_unlock (s : State) (p : Nat) (pool : Pool) (mutex : Nat) :
    (s.setPool p pool).unlock P mutex = (s.unlock P mutex).setPool p pool := by
  unfold State.unlock
  split <;> rfl

theorem State.setPool_getPool (s : State) (pool : Pool) (h : q ≠ p) :
    (s.setPool p pool).getPool q = s.getPool q := by
  rw [State.getPool, State.setPool_mem, Memory.setPool_of_ne _ _ h, State.getPool]

theorem pallocSlots_setPool (a requested : Nat) (record : Bool) (s : State) (own : Pool)
    (h : q ≠ p) :
    pallocSlots env q a requested record (s.setPool p own) =
      (pallocSlots env q a requested record s).map fun x => (x.1, x.2.setPool p own) := by
  unfold pallocSlots
  rw [State.setPool_getPool s own h]
  cases s.getPool q with
  | error e => rfl
  | ok pool =>
      simp only [Bind.bind, Except.bind, State.setPool_lock, memnodeAllocate_setPool]
      cases findFit a pool.nodes (slotsFrom (P.getNpages a - 1)) with
      | some fit =>
          simp only [Except.map, State.setPool_comm _ _ _ h.symm, State.setPool_unlock]
      | none =>
          cases memnodeAllocate env (P.getNpages a * P.pageSize) (s.lock P pool.mutex) with
          | mk node s₁ =>
              cases node with
              | none => simp only [Except.map, State.setPool_unlock]
              | some node =>
                  simp only [Except.map, State.setPool_comm _ _ _ h.symm, State.setPool_unlock]

theorem takeRecord_setPool (s : State) (own : Pool) (h : q ≠ p) :
    takeRecord env q (s.setPool p own) =
      (takeRecord env q s).map fun x => (x.1, x.2.setPool p own) := by
  unfold takeRecord
  rw [State.setPool_getPool s own h]
  cases s.getPool q with
  | error e => rfl
  | ok pool =>
      simp only [Bind.bind, Except.bind]
      cases pool.freeCleanups with
      | some r =>
          have hget : (s.setPool p own).getRecord r = s.getRecord r := rfl
          simp only [hget]
          cases s.getRecord r with
          | error e => rfl
          | ok c =>
              change Except.ok (r, (s.setPool p own).setPool q _) = Except.ok (r, _)
              rw [State.setPool_comm _ _ _ h.symm]
      | none =>
          simp only [pallocSlots_setPool _ _ _ s own h]
          cases pallocSlots env q (P.alignAllocation P.sizeofCleanup) P.sizeofCleanup true s with
          | error e => rfl
          | ok x =>
              obtain ⟨mem, s₁⟩ := x
              cases mem <;> rfl

theorem cleanupAdd_setPool (data : Nat) (handler : Handler) (s : State) (own : Pool) (h : q ≠ p) :
    cleanupAdd env q data handler (s.setPool p own) =
      (cleanupAdd env q data handler s).map fun s' => s'.setPool p own := by
  unfold cleanupAdd
  rw [State.setPool_getPool s own h]
  cases s.getPool q with
  | error e => rfl
  | ok pool =>
      change (takeRecord env q ((s.setPool p own).lock P pool.mutex) >>= _) =
        Except.map _ (takeRecord env q (s.lock P pool.mutex) >>= _)
      rw [State.setPool_lock, takeRecord_setPool _ own h]
      cases takeRecord env q (s.lock P pool.mutex) with
      | error e => rfl
      | ok x =>
          obtain ⟨r, s₁⟩ := x
          change ((s₁.setPool p own).getPool q >>= _) = Except.map _ (s₁.getPool q >>= _)
          rw [State.setPool_getPool s₁ own h]
          cases s₁.getPool q with
          | error e => rfl
          | ok pool₁ =>
              change Except.ok ((((s₁.setRecord P r _).setPool p own).setPool q _).unlock P _) =
                Except.ok _
              rw [State.setPool_comm _ _ _ h.symm, State.setPool_unlock]

/-! ## Registrations elsewhere -/

def Roomy (P : Platform) (m : Memory) (pendings frees : Nat → List Ref) (q : Nat) : Prop :=
  ∀ pool, m.pools q = some pool → ∀ k, Room P pool (pendings q) (frees q) k

def Spares (env : Environment P) (ps : List Nat) (p : Nat) (m : Memory)
    (pendings frees : Nat → List Ref) : Prop :=
  ∀ id data, ∀ reg ∈ env.handler id data,
    reg.pool ∈ ps ∧ reg.pool ≠ p ∧ Roomy P m pendings frees reg.pool

structure Spared (P : Platform) (p : Nat) (pendings frees : Nat → List Ref) (s : State)
    (pendings' frees' : Nat → List Ref) (s' : State) : Prop where
  here : s'.mem.pools p = s.mem.pools p
  pending : pendings' p = pendings p
  free : frees' p = frees p
  records : SameRecords s.mem s'.mem (pendings p ++ frees p)
  called : called s'.events = called s.events
  roomy : ∀ q, q ≠ p → Roomy P s.mem pendings frees q → Roomy P s'.mem pendings' frees' q

theorem Spared.refl (p : Nat) (pendings frees : Nat → List Ref) (s : State) :
    Spared P p pendings frees s pendings frees s :=
  ⟨rfl, rfl, rfl, .refl _ _, rfl, fun _ _ h => h⟩

theorem Spared.trans {pendings'' frees'' : Nat → List Ref}
    (h : Spared P p pendings frees s pendings' frees' s')
    (h' : Spared P p pendings' frees' s' pendings'' frees'' s'') :
    Spared P p pendings frees s pendings'' frees'' s'' where
  here := h'.here.trans h.here
  pending := h'.pending.trans h.pending
  free := h'.free.trans h.free
  records := by
    have hrest := h'.records
    rw [h.pending, h.free] at hrest
    exact h.records.trans hrest
  called := h'.called.trans h.called
  roomy q hq hroomy := h'.roomy q hq (h.roomy q hq hroomy)

theorem Spares.spared (hspares : Spares env ps p s.mem pendings frees)
    (h : Spared P p pendings frees s pendings' frees' s') :
    Spares env ps p s'.mem pendings' frees' := fun id data reg hreg => by
  obtain ⟨hmem, hne, hroomy⟩ := hspares id data reg hreg
  exact ⟨hmem, hne, h.roomy _ hne hroomy⟩

theorem Spares.elsewhere (hspares : Spares env ps p s.mem pendings frees)
    (h : Elsewhere ps p pendings frees s pendings' frees' s') :
    Spares env ps p s'.mem pendings' frees' := fun id data reg hreg => by
  obtain ⟨hmem, hne, hroomy⟩ := hspares id data reg hreg
  refine ⟨hmem, hne, fun pool hpool k => ?_⟩
  rw [h.pools _ hne] at hpool
  rw [h.pending _ hne, h.free _ hne]
  exact hroomy pool hpool k

/-- A registration in another pool, while the pool's own pointer may be aside. -/
theorem cleanupAdd_spared {id : Nat} (hp : p ∈ ps) (hq : q ∈ ps) (hne : q ≠ p)
    (hpool : s.mem.pools p = some pool)
    (h : Held P env.contents (s.mem.setPool p own) ps pendings frees)
    (hroomy : Roomy P s.mem pendings frees q) :
    Yields (¬ env.Succeeds) (cleanupAdd env q data (.user id) s) fun s' => ∃ pendings' frees',
      Held P env.contents (s'.mem.setPool p own) ps pendings' frees' ∧
        Spared P p pendings frees s pendings' frees' s' := by
  have hsame : (s.setPool p own).mem.pools q = s.mem.pools q := Memory.setPool_of_ne _ _ hne
  obtain ⟨pool_q, hpool_q, -, -⟩ := h.pools q hq
  have hroom := hroomy pool_q (hsame ▸ hpool_q)
  have hadd : Yields (¬ env.Succeeds) (cleanupAdd env q data (.user id) (s.setPool p own)) _ :=
    cleanupAdd_added h hq hpool_q (h.addSafe hq hpool_q (hroom (0 + 1)))
  rw [cleanupAdd_setPool _ _ _ _ hne] at hadd
  apply hadd.of_map.mono
  intro s' hok hs'
  obtain ⟨pool', r, rest, hadded⟩ := hs'
  refine ⟨_, _, hadded.held, ?_, Function.update_of_ne hne.symm _ _,
    Function.update_of_ne hne.symm _ _, hadded.others p hp hne.symm, hadded.aside.called,
    fun x hx hxroomy pool hpool k => ?_⟩
  · -- nothing changes where the pool is replaced by itself
    have hself : s.setPool p pool = s := by rw [State.setPool, Memory.setPool_eq hpool]
    have hown : cleanupAdd env q data (.user id) (s.setPool p pool) = _ :=
      cleanupAdd_setPool data (.user id) s pool hne
    rw [hself, hok] at hown
    have hs' : s' = s'.setPool p pool := Except.ok.inj hown
    rw [hpool, hs', State.setPool_mem, Memory.setPool_self]
  · have hpool' : (s'.setPool p own).mem.pools x = some pool := by
      rw [State.setPool_mem, Memory.setPool_of_ne _ _ hx, hpool]
    by_cases hxq : x = q
    · subst hxq
      rw [hadded.here] at hpool'
      cases hpool'
      rw [Function.update_self, Function.update_self]
      exact hadded.room k (hroom (k + 1))
    · rw [hadded.aside.pools x hxq, State.setPool_mem, Memory.setPool_of_ne _ _ hx] at hpool'
      rw [Function.update_of_ne hxq, Function.update_of_ne hxq]
      exact hxroomy pool hpool' k

theorem registrations_spared {regs : List Registration} (hp : p ∈ ps)
    (hregs : ∀ reg ∈ regs, reg.pool ∈ ps ∧ reg.pool ≠ p ∧ Roomy P s.mem pendings frees reg.pool)
    (hpool : s.mem.pools p = some pool)
    (h : Held P env.contents (s.mem.setPool p own) ps pendings frees) :
    Yields (¬ env.Succeeds)
      (regs.foldlM (fun s reg => cleanupAdd env reg.pool reg.data (.user reg.id) s) s)
      fun s' => ∃ pendings' frees', Held P env.contents (s'.mem.setPool p own) ps pendings' frees' ∧
        Spared P p pendings frees s pendings' frees' s' := by
  induction regs generalizing s pendings frees with
  | nil => exact Yields.ok ⟨pendings, frees, h, .refl ..⟩
  | cons reg regs ih =>
      obtain ⟨⟨hmem, hne, hroomy⟩, hregs⟩ := List.forall_mem_cons.mp hregs
      rw [List.foldlM_cons]
      apply (cleanupAdd_spared hp hmem hne hpool h hroomy).bind
      intro s₁ _ h₁
      obtain ⟨pendings₁, frees₁, hheld₁, hspared₁⟩ := h₁
      have hregs₁ : ∀ reg ∈ regs, reg.pool ∈ ps ∧ reg.pool ≠ p ∧
          Roomy P s₁.mem pendings₁ frees₁ reg.pool := fun reg hreg =>
        ⟨(hregs reg hreg).1, (hregs reg hreg).2.1,
          hspared₁.roomy _ (hregs reg hreg).2.1 (hregs reg hreg).2.2⟩
      apply (ih hregs₁ (hspared₁.here.trans hpool) hheld₁).mono
      intro s₂ _ h₂
      obtain ⟨pendings₂, frees₂, hheld₂, hspared₂⟩ := h₂
      exact ⟨pendings₂, frees₂, hheld₂, hspared₁.trans hspared₂⟩

/-! ## `fpx_pool_cleanup_run1` -/

structure Tidy (env : Environment P) (ps : List Nat) (p : Nat) (es : List Entry) (k : Nat)
    (s : State) : Prop where
  lists : ∃ pool pendings frees, s.mem.pools p = some pool ∧
    Held P env.contents s.mem ps pendings frees ∧ Spares env ps p s.mem pendings frees ∧
    entries s.mem (pendings p) = es ∧ Room P pool (pendings p) (frees p) k

theorem Relisted.tidy {es : List Entry} (h : Relisted env ps pendings frees p k es s s')
    (hspares : Spares env ps p s.mem pendings frees) : Tidy env ps p es k s' := by
  obtain ⟨pool', rest, frees', hpool', hheld', helse, hentries, hroom⟩ := h.lists
  refine ⟨⟨pool', _, frees', hpool', hheld', hspares.elsewhere helse, ?_, ?_⟩⟩
  · rwa [Function.update_self]
  · rwa [Function.update_self]

theorem cleanupRun_spared (h : Held P env.contents s.mem ps pendings frees) (hp : p ∈ ps)
    (hpool : s.mem.pools p = some pool) (hspares : Spares env ps p s.mem pendings frees)
    (hroom : Room P pool (pendings p) (frees p) k) (hrounds : (pendings p).length ≤ rounds)
    (he : (data, handler) ∈ entries s.mem (pendings p)) :
    Yields (¬ env.Succeeds) (cleanupRun env rounds p data handler s) fun s' =>
      called s'.events = called s.events ++ [(data, handler)] ∧
        Tidy env ps p ((entries s.mem (pendings p)).erase (data, handler)) k s' := by
  cases handler with
  | free =>
      obtain ⟨s', hok, hcalled, hlisted⟩ := cleanupRun_quiet h hp hpool hroom hrounds he rfl
      rw [hok]
      exact Yields.ok ⟨hcalled, hlisted.tidy hspares⟩
  | user id =>
      have hlock := Aside.lock (P := P) p s pool.mutex
      have hmem : (s.lock P pool.mutex).mem = s.mem := State.lock_mem ..
      have hself : s.mem.setPool p pool = s.mem := Memory.setPool_eq hpool
      obtain ⟨us, r, vs, c, hpending, hus, hc, hce, hcall⟩ := cleanupRun_found h hp hpool hrounds he
      rw [hcall, runHandler_registers hce]
      have hstart : Held P env.contents
          (((s.lock P pool.mutex).log (.run id data)).mem.setPool p pool) ps pendings frees := by
        rwa [State.log_mem, hmem, hself]
      have hpool₀ : ((s.lock P pool.mutex).log (.run id data)).mem.pools p = some pool := by
        rwa [State.log_mem, hmem]
      refine (registrations_spared hp (fun reg hreg => ?_) hpool₀ hstart).bind fun s₁ _ h₁ => ?_
      · rw [State.log_mem, hmem]
        exact hspares id data reg hreg
      obtain ⟨pendings₁, frees₁, hheld₁, hspared₁⟩ := h₁
      have hhere₁ := hspared₁.here
      have hrecords₁ := hspared₁.records
      rw [State.log_mem, hmem] at hhere₁ hrecords₁
      have hpool₁ : s₁.mem.pools p = some pool := hhere₁.trans hpool
      rw [Memory.setPool_eq hpool₁] at hheld₁
      have hpending₁ : pendings₁ p = us ++ r :: vs := hspared₁.pending.trans hpending
      rw [← hspared₁.pending, ← hspared₁.free] at hroom
      obtain ⟨s', hs', hcalled, pool', hpool', hheld', helse, hentries, hroom'⟩ :=
        unlinkRecord_relisted hheld₁ hp hpool₁ hpending₁
          (hheld₁.handled_skip hp hpool₁ hpending₁) hpool₁ hroom
      rw [hs']
      have hspares₁ : Spares env ps p s₁.mem pendings₁ frees₁ := by
        refine Spares.spared ?_ hspared₁
        rwa [State.log_mem, hmem]
      refine Yields.ok ⟨?_, ⟨pool', _, _, hpool', hheld', hspares₁.elsewhere helse, ?_, ?_⟩⟩
      · rw [hcalled, hspared₁.called, State.log, called_append, hlock.called]
        rfl
      · have hsame : entries s₁.mem (us ++ vs) = entries s.mem (us ++ vs) := by
          refine SameRecords.entries (hrecords₁.subset fun x hx => List.mem_append_left _ ?_)
          rw [hpending]
          simp only [List.mem_append, List.mem_cons] at hx ⊢
          tauto
        rw [Function.update_self, hentries, hsame, entries_append, hpending, entries_split hc, hce,
          erase_first hus]
      · rw [Function.update_self, Function.update_self]
        exact hroom'

/-! ## `fpx_pool_cleanup_run_all` -/

theorem spared_round {rest : List Ref} (hp : p ∈ ps) (hpending : pendings p = r :: rest)
    (hpool : s.mem.pools p = some pool) (hc : s.mem.records r = some c)
    (h : Held P env.contents (s.mem.setPool p (pool.aim (some r))) ps pendings frees)
    (hspares : Spares env ps p s.mem pendings frees) :
    Yields (¬ env.Succeeds)
      (runHandler env p c (s.log (.readRecord r.addr)) >>= reserveRecord P p r) fun s' =>
      ∃ pool' pendings' frees', s'.mem.pools p = some pool' ∧
        Held P env.contents (s'.mem.setPool p (pool'.aim c.next)) ps pendings' frees' ∧
        Spares env ps p s'.mem pendings' frees' ∧ pendings' p = rest ∧
        SameRecords s.mem s'.mem rest ∧ called s'.events = called s.events ++ [c.entry] := by
  cases hid : c.handler with
  | free =>
      have hquiet : registers env c.data c.handler = [] := by rw [hid]; rfl
      obtain ⟨s', pool', hok, hpool', -, hheld', helse, hrecords, hcalled⟩ :=
        calm_round hp hpending hpool hc hquiet h
      rw [hok]
      exact Yields.ok ⟨pool', _, _, hpool', hheld', hspares.elsewhere helse,
        Function.update_self .., hrecords, hcalled⟩
  | user id =>
      have hce : c.entry = (c.data, .user id) := by rw [CleanupNode.entry, hid]
      rw [runHandler_registers hce]
      refine (registrations_spared (s := (s.log (.readRecord r.addr)).log (.run id c.data)) hp
        (fun reg hreg => hspares id c.data reg hreg) hpool h).bind fun s₁ _ h₁ => ?_
      obtain ⟨pendings₁, frees₁, hheld₁, hspared₁⟩ := h₁
      have hpending₁ : pendings₁ p = r :: rest := hspared₁.pending.trans hpending
      have hrecords₁ : SameRecords s.mem s₁.mem (r :: rest) :=
        hspared₁.records.subset fun x hx => List.mem_append_left _ (hpending ▸ hx)
      have hc₁ : s₁.mem.records r = some c := (hrecords₁ r (List.mem_cons_self ..)).trans hc
      obtain ⟨s₂, pool₂, hs₂, hpool₂, -, hheld₂, helse₂, hrecords₂, hevents₂⟩ :=
        user_round hp hpending₁ (hspared₁.here.trans hpool) hc₁ hheld₁
      rw [hs₂]
      have hspares₁ : Spares env ps p s₁.mem pendings₁ frees₁ :=
        Spares.spared (s := (s.log (.readRecord r.addr)).log (.run id c.data)) hspares hspared₁
      refine Yields.ok ⟨pool₂, _, _, hpool₂, hheld₂, hspares₁.elsewhere helse₂,
        Function.update_self .., (hrecords₁.subset (List.subset_cons_self ..)).trans hrecords₂, ?_⟩
      have hone : called [Event.run id c.data] = [c.entry] := hce.symm ▸ rfl
      rw [hevents₂, hspared₁.called, State.log, called_append, hone]
      exact congrArg (· ++ [c.entry]) (called_log rfl s)

/-- Where the loop is: its nodes are those that were pending but for the ones that were
called. -/
structure Sparing (env : Environment P) (ps : List Nat) (pendings : Nat → List Ref) (p : Nat)
    (s : State) (rs : List Ref) (ptr : Option Ref) (s' : State) : Prop where
  lists : ∃ pool' pendings' frees', s'.mem.pools p = some pool' ∧
    Held P env.contents (s'.mem.setPool p (pool'.aim ptr)) ps pendings' frees' ∧
    Spares env ps p s'.mem pendings' frees' ∧ pendings' p = rs
  called : called s'.events ++ entries s'.mem rs = called s.events ++ entries s.mem (pendings p)

theorem Sparing.chain {rs : List Ref} (hp : p ∈ ps) (h : Sparing env ps pendings p s rs ptr s') :
    Chain s'.mem.records CleanupNode.next ptr rs := by
  obtain ⟨pool', pendings', frees', -, hheld, -, rfl⟩ := h.lists
  exact (hheld.poolOk hp (Memory.setPool_self ..)).pendingChain

theorem Sparing.round {rest : List Ref} (hp : p ∈ ps)
    (h : Sparing env ps pendings p s (r :: rest) (some r) s') :
    ∃ c, s'.mem.records r = some c ∧ Yields (¬ env.Succeeds)
      (runHandler env p c (s'.log (.readRecord r.addr)) >>= reserveRecord P p r)
      (Sparing env ps pendings p s rest c.next) := by
  obtain ⟨-, c, hc, -⟩ := h.chain hp
  obtain ⟨⟨pool', pendings', frees', hpool', hheld', hspares', hpending'⟩, hcalled⟩ := h
  refine ⟨c, hc, (spared_round hp hpending' hpool' hc hheld' hspares').mono fun s₁ _ h₁ => ?_⟩
  obtain ⟨pool₁, pendings₁, frees₁, hpool₁, hheld₁, hspares₁, hpending₁, hrecords₁, hcalled₁⟩ := h₁
  refine ⟨⟨pool₁, pendings₁, frees₁, hpool₁, hheld₁, hspares₁, hpending₁⟩, ?_⟩
  rw [entries_cons hc] at hcalled
  rw [hcalled₁, hrecords₁.entries, List.append_assoc]
  exact hcalled

theorem runCleanups_spared (hp : p ∈ ps) (hpool : s.mem.pools p = some pool)
    (h : Held P env.contents (s.mem.setPool p (pool.aim ptr)) ps pendings frees)
    (hspares : Spares env ps p s.mem pendings frees) :
    Yields (rounds < (pendings p).length ∨ ¬ env.Succeeds) (runCleanups env p rounds ptr s)
      (Sparing env ps pendings p s [] none) := by
  have hstart : Sparing env ps pendings p s (pendings p) ptr s :=
    ⟨⟨pool, pendings, frees, hpool, h, hspares, rfl⟩, rfl⟩
  exact runCleanups_rule (J := Sparing env ps pendings p s) (fun h => (h.chain hp).head_eq)
    (Sparing.round hp) hstart

theorem cleanupRunAll_spared (h : Held P env.contents s.mem ps pendings frees) (hp : p ∈ ps)
    (hpool : s.mem.pools p = some pool) (hspares : Spares env ps p s.mem pendings frees) :
    Yields (rounds < (pendings p).length ∨ ¬ env.Succeeds) (cleanupRunAll env rounds p s) fun s' =>
      ∃ pendings' frees', Held P env.contents s'.mem ps pendings' frees' ∧ pendings' p = [] ∧
        called s'.events = called s.events ++ entries s.mem (pendings p) := by
  have haim : s.mem.setPool p (pool.aim pool.cleanups) = s.mem := Memory.setPool_eq hpool
  rw [← haim] at h
  unfold cleanupRunAll
  rw [State.getPool_bind hpool]
  apply (runCleanups_spared hp hpool h hspares).bind
  intro s₁ _ h₁
  obtain ⟨⟨pool₁, pendings₁, frees₁, hpool₁, hheld₁, -, hnil₁⟩, hcalled₁⟩ := h₁
  rw [entries_nil, List.append_nil] at hcalled₁
  rw [State.getPool_bind hpool₁]
  exact Yields.ok ⟨pendings₁, frees₁, hheld₁, hnil₁, hcalled₁⟩

end Floppix.Pools
