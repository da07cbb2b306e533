import Floppix.System.Pool.NewPool

/-! # When the system allocator refuses

A call asks the system for a memnode, for a large block, or for a block and then for the
page of the cleanup node that goes with it. What it makes of a refusal depends on which
of these it was.
-/

namespace Floppix.Pools

open Layout Outcome

variable {P : Platform} {env : Environment P} {m m' : Memory} {p : Nat} {pool : Pool}
  {s s' : State} {thread size : Nat} {parent : Option Nat}

/-! ## Requests -/

inductive Request where
  | create (size : Nat) (parent : Option Nat)
  | palloc (p size : Nat)
  | pcalloc (p size : Nat)
  | cleanupAdd (p data : Nat) (handler : Handler)

def Request.target : Request → Option Nat
  | .create _ parent => parent
  | .palloc p _ => some p
  | .pcalloc p _ => some p
  | .cleanupAdd p _ _ => some p

variable (env)

/-- What the system answers to a block that a memnode is to have. -/
def slotAnswers (m : Memory) (pool : Pool) (a : Nat) : List (Option Nat) :=
  if pool.fit P a = none then [env.answer m (P.getNpages a * P.pageSize)] else []

def recordAnswers (m : Memory) (pool : Pool) : List (Option Nat) :=
  if pool.freeCleanups = none then slotAnswers env m pool (P.alignAllocation P.sizeofCleanup)
  else []

def pallocAnswers (m : Memory) (pool : Pool) (size : Nat) : List (Option Nat) :=
  let a := P.alignAllocation size
  if a = 0 then []
  else if maxPoolSlot + 1 < P.getNpages a then
    match env.answer m a with
    | none => [none]
    | some mem => some mem :: recordAnswers env (m.granted ⟨mem, a⟩) pool
  else slotAnswers env m pool a

/-- What the system answers to what a call asks, in this order. -/
def Request.answers (m : Memory) : Request → List (Option Nat)
  | .create size _ =>
      if RefusesSize P size then [] else [env.answer m (newPages P size * P.pageSize)]
  | .palloc p size => ((m.pools p).map fun pool => pallocAnswers env m pool size).getD []
  | .pcalloc p size => ((m.pools p).map fun pool => pallocAnswers env m pool size).getD []
  | .cleanupAdd p _ _ => ((m.pools p).map (recordAnswers env m)).getD []

/-- The request that is refused is for a cleanup node: that of a registration, or the one
after a large block was granted. -/
def Request.ForRecord (m : Memory) (call : Request) : Prop :=
  match call with
  | .create _ _ => False
  | .palloc _ _ => 1 < (call.answers env m).length
  | .pcalloc _ _ => 1 < (call.answers env m).length
  | .cleanupAdd _ _ _ => True

/-! ## What should follow -/

/-- The pools and their cleanup nodes are as they were, and nothing more is allocated. -/
structure Unchanged (m m' : Memory) : Prop where
  live : m'.live = m.live
  pools : m'.pools = m.pools
  records : m'.records = m.records

/-- The call returns, with a failure where it has a result, and leaves everything as it
was. -/
def Request.FailsSafely (thread : Nat) (s : State) : Request → Prop
  | .create size parent => ∃ err s', Pools.create env thread size parent s = .ok (err, none, s') ∧
      err ≠ Err.ok ∧ Unchanged s.mem s'.mem
  | .palloc p size => ∃ s', Pools.palloc env p size s = .ok (none, s') ∧ Unchanged s.mem s'.mem
  | .pcalloc p size => ∃ s', Pools.pcalloc env p size s = .ok (none, s') ∧ Unchanged s.mem s'.mem
  | .cleanupAdd p data handler =>
      ∃ s', Pools.cleanupAdd env p data handler s = .ok s' ∧ Unchanged s.mem s'.mem

variable {env}

/-! ## How often the system is asked -/

theorem pallocSlots_asks {a requested : Nat} {record : Bool} (hpool : s.mem.pools p = some pool) :
    Yields True (pallocSlots env p a requested record s) fun r =>
      r.2.mem.mallocs = s.mem.mallocs + (slotAnswers env s.mem pool a).length := by
  unfold slotAnswers
  cases hfit : pool.fit P a with
  | some fit =>
      obtain ⟨s', hok, hmem⟩ := pallocSlots_fit env requested record hpool hfit
      rw [hok]
      exact Yields.ok (by rw [hmem]; rfl)
  | none =>
      cases hanswer : env.answer s.mem (P.getNpages a * P.pageSize) with
      | none =>
          obtain ⟨s', hok, hmem⟩ := pallocSlots_refused requested record hpool hfit hanswer
          rw [hok]
          exact Yields.ok (by rw [hmem]; rfl)
      | some mem =>
          obtain ⟨s', hok, hmem⟩ := pallocSlots_granted requested record hpool hfit hanswer
          rw [hok]
          exact Yields.ok (by rw [hmem]; rfl)

theorem takeRecord_asks (hpool : s.mem.pools p = some pool) :
    Yields True (takeRecord env p s) fun r =>
      r.2.mem.mallocs = s.mem.mallocs + (recordAnswers env s.mem pool).length := by
  rw [takeRecord, State.getPool_bind hpool]
  unfold recordAnswers
  cases hfree : pool.freeCleanups with
  | some r =>
      exact (getRecord_yields s r).bind fun c _ _ => Yields.ok rfl
  | none =>
      have hslots : Yields True (pallocSlots env p
          (P.alignAllocation P.sizeofCleanup) P.sizeofCleanup true s) _ :=
        pallocSlots_asks hpool
      apply hslots.bind
      intro r _ hr
      obtain ⟨found, s'⟩ := r
      cases found with
      | none => trivial
      | some mem => exact Yields.ok hr

theorem cleanupAdd_asks {data : Nat} {handler : Handler} (hpool : s.mem.pools p = some pool) :
    Yields True (cleanupAdd env p data handler s) fun s' =>
      s'.mem.mallocs = s.mem.mallocs + (recordAnswers env s.mem pool).length := by
  rw [cleanupAdd, State.getPool_bind hpool]
  have htake : Yields True (takeRecord env p (s.lock P pool.mutex)) fun r =>
      r.2.mem.mallocs = s.mem.mallocs + (recordAnswers env s.mem pool).length := by
    have htake : Yields True (takeRecord env p (s.lock P pool.mutex)) _ :=
      takeRecord_asks (by rwa [State.lock_mem])
    rwa [State.lock_mem] at htake
  apply htake.bind
  intro r _ hr
  refine (getPool_yields _ p).bind fun pool' _ _ => Yields.ok ?_
  rw [State.unlock_mem, State.setPool_mem, State.setRecord_mem]
  exact hr

theorem palloc_asks (hpool : s.mem.pools p = some pool) :
    Yields True (palloc env p size s) fun r =>
      r.2.mem.mallocs = s.mem.mallocs + (pallocAnswers env s.mem pool size).length := by
  simp only [pallocAnswers]
  by_cases ha : P.alignAllocation size = 0
  · rw [if_pos ha, palloc_zero env hpool ha]
    exact Yields.ok (by rw [State.unlock_mem]; rfl)
  by_cases hindex : maxPoolSlot + 1 < P.getNpages (P.alignAllocation size)
  · rw [if_neg ha, if_pos hindex]
    cases hanswer : env.answer s.mem (P.alignAllocation size) with
    | none =>
        obtain ⟨s', hok, hmem⟩ := palloc_refused hpool ha hindex hanswer
        rw [hok]
        exact Yields.ok (by rw [hmem]; rfl)
    | some mem =>
        obtain ⟨s₁, hmem₁, hcall⟩ := palloc_granted hpool ha hindex hanswer
        have hpool₁ : s₁.mem.pools p =
            some (pool.handed ⟨mem, P.alignAllocation size, size, false⟩) := by
          rw [hmem₁, Memory.handed, Memory.setPool_self]
        have hadd : Yields True (cleanupAdd env p mem .free s₁) _ := cleanupAdd_asks hpool₁
        rw [hcall]
        refine Yields.map (hadd.mono fun s' _ hs' => ?_)
        rw [State.unlock_mem, hs', hmem₁, List.length_cons, Nat.add_comm _ 1, ← Nat.add_assoc]
        rfl
  · rw [if_neg ha, if_neg hindex, palloc_slots env hpool ha (by omega)]
    exact pallocSlots_asks hpool

def Request.perform (env : Environment P) (thread : Nat) (s : State) :
    Request → Except Fault State
  | .create size parent => (Pools.create env thread size parent s).map fun r => r.2.2
  | .palloc p size => (Pools.palloc env p size s).map Prod.snd
  | .pcalloc p size => (Pools.pcalloc env p size s).map Prod.snd
  | .cleanupAdd p data handler => Pools.cleanupAdd env p data handler s

theorem create_asks (hparent : ∀ q, parent = some q → ∃ old, PoolSound P s.mem q old) :
    Yields True (create env thread size parent s) fun r =>
      r.2.2.mem.mallocs = s.mem.mallocs +
        ((Request.create size parent).answers env s.mem).length := by
  rw [Request.answers]
  by_cases hrefuses : RefusesSize P size
  · rw [if_pos hrefuses, create_outOfRange env thread parent s hrefuses]
    exact Yields.ok rfl
  rw [if_neg hrefuses]
  cases hanswer : env.answer s.mem (newPages P size * P.pageSize) with
  | none =>
      obtain ⟨s', hok, hmem⟩ := create_refused thread parent hrefuses hanswer
      rw [hok]
      exact Yields.ok (by rw [hmem]; rfl)
  | some mem =>
      by_cases hmutex : MutexFails env parent (mem + P.memnodeHeader + P.poolHeader)
      · obtain ⟨err, s', hok, -, hmem⟩ := create_mutexFailed thread hrefuses hanswer hmutex
        rw [hok]
        exact Yields.ok (by rw [hmem]; rfl)
      · obtain ⟨s', pool, n, hok, hopened⟩ :=
          create_done thread hrefuses hanswer hmutex hparent
        rw [hok]
        exact Yields.ok hopened.mallocs

theorem Request.perform_asks {call : Request}
    (htarget : ∀ p, call.target = some p → ∃ pool, PoolSound P s.mem p pool) :
    Yields True (call.perform env thread s) fun s' =>
      s'.mem.mallocs = s.mem.mallocs + (call.answers env s.mem).length := by
  cases call with
  | create size parent => exact Yields.map (create_asks htarget)
  | palloc p size =>
      obtain ⟨pool, hpool⟩ := htarget p rfl
      simp only [Request.answers, hpool.here, Option.map_some, Option.getD_some]
      exact Yields.map (palloc_asks hpool.here)
  | pcalloc p size =>
      obtain ⟨pool, hpool⟩ := htarget p rfl
      simp only [Request.answers, hpool.here, Option.map_some, Option.getD_some]
      have hcall : Yields True (Pools.palloc env p size s) _ := palloc_asks hpool.here
      refine Yields.map (hcall.bind fun r _ hr => ?_)
      obtain ⟨found, s'⟩ := r
      cases found <;> exact Yields.ok hr
  | cleanupAdd p data handler =>
      obtain ⟨pool, hpool⟩ := htarget p rfl
      simp only [Request.answers, hpool.here, Option.map_some, Option.getD_some]
      exact cleanupAdd_asks hpool.here

/-! ## Refusals -/

theorem Unchanged.of_refused (h : m' = m.refused) : Unchanged m m' := by
  rw [h]
  exact ⟨rfl, rfl, rfl⟩

theorem slotAnswers_none {a : Nat} (h : none ∈ slotAnswers env m pool a) :
    pool.fit P a = none ∧ env.answer m (P.getNpages a * P.pageSize) = none := by
  unfold slotAnswers at h
  split at h
  · rename_i hfit
    exact ⟨hfit, (List.mem_singleton.mp h).symm⟩
  · cases h

/-- A refusal of a cleanup node means that there is none. -/
theorem recordAnswers_none (h : none ∈ recordAnswers env m pool) : ¬ Obtainable env m pool := by
  unfold recordAnswers at h
  split at h
  · rename_i hfree
    obtain ⟨hfit, hanswer⟩ := slotAnswers_none h
    rw [npages_cleanup_size] at hanswer
    rintro (hne | hne | hne)
    · exact hne hfree
    · exact hne hfit
    · exact hne hanswer
  · cases h

theorem slotAnswers_length (env : Environment P) (m : Memory) (pool : Pool) (a : Nat) :
    (slotAnswers env m pool a).length ≤ 1 := by
  unfold slotAnswers
  split <;> simp

/-- Either the only request of the call was refused, or the one for the cleanup node of a
block that was granted. -/
theorem pallocAnswers_none (h : none ∈ pallocAnswers env m pool size) :
    P.alignAllocation size ≠ 0 ∧
    ((pallocAnswers env m pool size).length ≤ 1 ∧
        (if maxPoolSlot + 1 < P.getNpages (P.alignAllocation size) then
          env.answer m (P.alignAllocation size) = none
        else none ∈ slotAnswers env m pool (P.alignAllocation size)) ∨
      1 < (pallocAnswers env m pool size).length ∧
        maxPoolSlot + 1 < P.getNpages (P.alignAllocation size) ∧
        ∃ mem, env.answer m (P.alignAllocation size) = some mem ∧
          none ∈ recordAnswers env (m.granted ⟨mem, P.alignAllocation size⟩) pool) := by
  simp only [pallocAnswers] at h ⊢
  by_cases ha : P.alignAllocation size = 0
  · rw [if_pos ha] at h
    cases h
  simp only [if_neg ha] at h ⊢
  refine ⟨ha, ?_⟩
  by_cases hindex : maxPoolSlot + 1 < P.getNpages (P.alignAllocation size)
  · simp only [if_pos hindex] at h ⊢
    cases hanswer : env.answer m (P.alignAllocation size) with
    | none => exact Or.inl ⟨Nat.le_refl 1, rfl⟩
    | some mem =>
        rw [hanswer] at h
        have hrecord := (List.mem_cons.mp h).resolve_left (fun heq => nomatch heq)
        have hlength := List.length_pos_of_mem hrecord
        exact Or.inr ⟨Nat.lt_add_of_pos_left hlength, hindex, mem, rfl, hrecord⟩
  · simp only [if_neg hindex] at h ⊢
    exact Or.inl ⟨slotAnswers_length env m pool _, h⟩

theorem palloc_fails (hpool : s.mem.pools p = some pool)
    (h : none ∈ pallocAnswers env s.mem pool size) :
    (∃ s', palloc env p size s = .ok (none, s') ∧ Unchanged s.mem s'.mem) ↔
      ¬ 1 < (pallocAnswers env s.mem pool size).length := by
  obtain ⟨ha, ⟨hlength, hrefused⟩ | ⟨hlength, hindex, mem, hanswer, hrecord⟩⟩ :=
    pallocAnswers_none h
  · refine iff_of_true ?_ (Nat.not_lt.mpr hlength)
    split at hrefused
    · rename_i hindex
      obtain ⟨s', hok, hmem⟩ := palloc_refused hpool ha hindex hrefused
      exact ⟨s', hok, .of_refused hmem⟩
    · rename_i hindex
      obtain ⟨hfit, hanswer⟩ := slotAnswers_none hrefused
      obtain ⟨s', hok, hmem⟩ := pallocSlots_refused size false hpool hfit hanswer
      rw [← palloc_slots env hpool ha (by omega)] at hok
      exact ⟨s', hok, .of_refused hmem⟩
  · refine iff_of_false ?_ (not_not.mpr hlength)
    rintro ⟨s', hok, -⟩
    obtain ⟨s₁, hmem₁, hcall⟩ := palloc_granted hpool ha hindex hanswer
    have hnot := recordAnswers_none hrecord
    rw [← obtainable_handed env s.mem p pool ⟨mem, P.alignAllocation size, size, false⟩,
      ← hmem₁] at hnot
    have hpool₁ : s₁.mem.pools p =
        some (pool.handed ⟨mem, P.alignAllocation size, size, false⟩) := by
      rw [hmem₁, Memory.handed, Memory.setPool_self]
    rw [hcall, cleanupAdd_refused mem .free hpool₁ hnot] at hok
    cases hok

theorem pcalloc_none_iff : (∃ s', pcalloc env p size s = .ok (none, s') ∧ Unchanged s.mem s'.mem) ↔
    ∃ s', palloc env p size s = .ok (none, s') ∧ Unchanged s.mem s'.mem := by
  refine exists_congr fun s' => and_congr_left fun _ => ?_
  unfold pcalloc
  cases palloc env p size s with
  | error e => exact ⟨fun h => (nomatch h), fun h => (nomatch h)⟩
  | ok r =>
      obtain ⟨found, s₁⟩ := r
      cases found with
      | none => exact Iff.rfl
      | some mem =>
          refine iff_of_false (fun h => ?_) (fun h => ?_)
          · cases h
          · cases h

/-- A call of which a request is refused fails safely, unless the request was for a cleanup
node. -/
theorem refused_request_iff {call : Request}
    (htarget : ∀ p, call.target = some p → ∃ pool, s.mem.pools p = some pool)
    (h : none ∈ call.answers env s.mem) :
    call.FailsSafely env thread s ↔ ¬ call.ForRecord env s.mem := by
  cases call with
  | create size parent =>
      refine iff_of_true ?_ id
      rw [Request.answers] at h
      split at h
      · cases h
      · rename_i hrefuses
        obtain ⟨s', hok, hmem⟩ :=
          create_refused thread parent hrefuses (List.mem_singleton.mp h).symm
        exact ⟨_, s', hok, env.mallocErrno.code_ne_ok, .of_refused hmem⟩
  | palloc p size =>
      obtain ⟨pool, hpool⟩ := htarget p rfl
      simp only [Request.FailsSafely, Request.ForRecord, Request.answers, hpool, Option.map_some,
        Option.getD_some] at h ⊢
      exact palloc_fails hpool h
  | pcalloc p size =>
      obtain ⟨pool, hpool⟩ := htarget p rfl
      simp only [Request.FailsSafely, Request.ForRecord, Request.answers, hpool, Option.map_some,
        Option.getD_some] at h ⊢
      rw [pcalloc_none_iff]
      exact palloc_fails hpool h
  | cleanupAdd p data handler =>
      obtain ⟨pool, hpool⟩ := htarget p rfl
      refine iff_of_false ?_ (not_not.mpr trivial)
      rintro ⟨s', hok, -⟩
      simp only [Request.answers, hpool, Option.map_some, Option.getD_some] at h
      rw [cleanupAdd_refused data handler hpool (recordAnswers_none h)] at hok
      cases hok

/-- A system allocator that grants so many requests, and no more. -/
def bumpFor (P : Platform) (contents : Contents) (granted : Nat) : Environment P :=
  { bump P contents with
    malloc := fun k live _ => if k < granted then some (behind P live) else none
    sound := fun k live size a h => by
      split at h
      · exact (bump P contents).sound k live size a h
      · cases h }

theorem refused_request_create : ∃ s, firstState = some s ∧
    ((Request.create 100 (some firstPool)).FailsSafely (bumpFor lp64 .inMemory 1) 1 s ↔
      ¬ (Request.create 100 (some firstPool)).ForRecord (bumpFor lp64 .inMemory 1) s.mem) := by
  have h : ∃ s pool, firstState = some s ∧ s.mem.pools firstPool = some pool ∧
      none ∈ (Request.create 100 (some firstPool)).answers (bumpFor lp64 .inMemory 1) s.mem :=
    ⟨_, _, rfl, rfl, by decide⟩
  obtain ⟨s, pool, hs, hpool, hnone⟩ := h
  refine ⟨s, hs, refused_request_iff (fun p hp => ?_) hnone⟩
  cases hp
  exact ⟨pool, hpool⟩

/-- The page of the first pool is used up. Then a registration, and a large block after it
was granted, end in a null pointer. -/
theorem refused_record_faults : ∃ s s' pool, firstState = some s ∧
    exec (bump lp64 .inMemory) 1 ⟨.palloc firstPool 3776, 0, 0⟩ s = .ok s' ∧
    s'.mem.pools firstPool = some pool ∧
    (none ∈ (Request.cleanupAdd firstPool 7 (.user 0)).answers (bumpFor lp64 .inMemory 1) s'.mem ∧
      cleanupAdd (bumpFor lp64 .inMemory 1) firstPool 7 (.user 0) s' = .error .deref ∧
      ¬ (Request.cleanupAdd firstPool 7 (.user 0)).FailsSafely
        (bumpFor lp64 .inMemory 1) 1 s') ∧
    none ∈ (Request.palloc firstPool 100000).answers (bumpFor lp64 .inMemory 2) s'.mem ∧
      palloc (bumpFor lp64 .inMemory 2) firstPool 100000 s' = .error .deref ∧
      ¬ (Request.palloc firstPool 100000).FailsSafely (bumpFor lp64 .inMemory 2) 1 s' := by
  have h : ∃ s s' pool, firstState = some s ∧
      exec (bump lp64 .inMemory) 1 ⟨.palloc firstPool 3776, 0, 0⟩ s = .ok s' ∧
      s'.mem.pools firstPool = some pool ∧
      none ∈ (Request.cleanupAdd firstPool 7 (.user 0)).answers
        (bumpFor lp64 .inMemory 1) s'.mem ∧
      cleanupAdd (bumpFor lp64 .inMemory 1) firstPool 7 (.user 0) s' = .error .deref ∧
      none ∈ (Request.palloc firstPool 100000).answers (bumpFor lp64 .inMemory 2) s'.mem ∧
      palloc (bumpFor lp64 .inMemory 2) firstPool 100000 s' = .error .deref :=
    ⟨_, _, _, rfl, rfl, rfl, by decide, rfl, by decide, rfl⟩
  obtain ⟨s, s', pool, hs, hs', hpool, hadd, haddFaults, hpalloc, hpallocFaults⟩ := h
  refine ⟨s, s', pool, hs, hs', hpool, ⟨hadd, haddFaults, ?_⟩, hpalloc, hpallocFaults, ?_⟩
  · rintro ⟨t, ht, -⟩
    rw [haddFaults] at ht
    cases ht
  · rintro ⟨t, ht, -⟩
    rw [hpallocFaults] at ht
    cases ht

end Floppix.Pools
