import Floppix.System.Pool.Creation
import Floppix.System.Pool.Locks

/-! # What the allocation functions ask the system for

For each function the cases of its outcome, with the memory it leaves: a memnode of the
pool has room, or the system is asked and grants or refuses. This needs less of the pool
than its invariant says: that the memnodes in its slots are well formed.
-/

namespace Floppix.Pools

open Layout Outcome

variable {P : Platform} {env : Environment P} {m m' m'' : Memory} {p : Nat}
  {pool pool' pool'' : Pool} {s s' : State}

/-! ## The system allocator -/

def Environment.answer (env : Environment P) (m : Memory) (size : Nat) : Option Nat :=
  env.malloc m.mallocs m.live size

def Memory.refused (m : Memory) : Memory := { m with mallocs := m.mallocs + 1 }

def Memory.granted (m : Memory) (r : Region) : Memory :=
  { m with live := r :: m.live, mallocs := m.mallocs + 1 }

theorem malloc_refused {size : Nat} (h : env.answer s.mem size = none) :
    ∃ s', malloc env size s = (none, s') ∧ s'.mem = s.mem.refused := by
  rw [Environment.answer] at h
  exact ⟨_, by rw [malloc, h], rfl⟩

theorem malloc_granted {size a : Nat} (h : env.answer s.mem size = some a) :
    ∃ s', malloc env size s = (some a, s') ∧ s'.mem = s.mem.granted ⟨a, size⟩ := by
  rw [Environment.answer] at h
  exact ⟨_, by rw [malloc, h], rfl⟩

theorem memnodeAllocate_refused {size : Nat} (h : env.answer s.mem size = none) :
    ∃ s', memnodeAllocate env size s = (none, s') ∧ s'.mem = s.mem.refused := by
  obtain ⟨s', hm, hmem⟩ := malloc_refused h
  exact ⟨s', by rw [memnodeAllocate, hm], hmem⟩

theorem memnodeAllocate_granted {size a : Nat} (h : env.answer s.mem size = some a) :
    ∃ s', memnodeAllocate env size s = (some (newMemnode P a size), s') ∧
      s'.mem = s.mem.granted ⟨a, size⟩ := by
  obtain ⟨s', hm, hmem⟩ := malloc_granted h
  exact ⟨s', by rw [memnodeAllocate, hm]; rfl, hmem⟩

theorem answer_lock (env : Environment P) (s : State) (mutex size : Nat) :
    env.answer (s.lock P mutex).mem size = env.answer s.mem size := by
  rw [State.lock_mem]

/-! ## `fpx_palloc1` from the search on -/

def Pool.fit (P : Platform) (pool : Pool) (a : Nat) : Option Fit :=
  findFit a pool.nodes (slotsFrom (P.getNpages a - 1))

/-- The memnode a request without a fit asks for, with its block. -/
def freshNode (P : Platform) (mem a requested : Nat) (record : Bool) : Memnode :=
  (newMemnode P mem (P.getNpages a * P.pageSize)).carve P a requested record

variable {a : Nat}

theorem pallocSlots_fit (env : Environment P) (requested : Nat) (record : Bool)
    (hpool : s.mem.pools p = some pool) {fit : Fit} (hfit : pool.fit P a = some fit) :
    ∃ s', pallocSlots env p a requested record s = .ok (some fit.node.firstAvail, s') ∧
      s'.mem = s.mem.setPool p (pool.carve P fit a requested record) := by
  rw [Pool.fit] at hfit
  simp only [pallocSlots, State.getPool_bind hpool, hfit]
  exact ⟨_, rfl, by simp [Pool.carve]⟩

theorem pallocSlots_refused (requested : Nat) (record : Bool)
    (hpool : s.mem.pools p = some pool) (hfit : pool.fit P a = none)
    (hanswer : env.answer s.mem (P.getNpages a * P.pageSize) = none) :
    ∃ s', pallocSlots env p a requested record s = .ok (none, s') ∧ s'.mem = s.mem.refused := by
  rw [Pool.fit] at hfit
  rw [← answer_lock env s pool.mutex] at hanswer
  obtain ⟨s₁, hm, hmem⟩ := memnodeAllocate_refused hanswer
  simp only [pallocSlots, State.getPool_bind hpool, hfit, hm]
  exact ⟨_, rfl, by simp [hmem]⟩

theorem pallocSlots_granted (requested : Nat) (record : Bool)
    (hpool : s.mem.pools p = some pool) (hfit : pool.fit P a = none) {mem : Nat}
    (hanswer : env.answer s.mem (P.getNpages a * P.pageSize) = some mem) :
    ∃ s', pallocSlots env p a requested record s = .ok (some (mem + P.memnodeHeader), s') ∧
      s'.mem = (s.mem.granted ⟨mem, P.getNpages a * P.pageSize⟩).setPool p
        (pool.register (P.getNpages a - 1) (freshNode P mem a requested record)) := by
  rw [Pool.fit] at hfit
  rw [← answer_lock env s pool.mutex] at hanswer
  obtain ⟨s₁, hm, hmem⟩ := memnodeAllocate_granted hanswer
  simp only [pallocSlots, State.getPool_bind hpool, hfit, hm]
  exact ⟨_, rfl, by simp [hmem, freshNode]⟩

/-! ## Well-formed slots -/

variable {requested : Nat}

/-- The memnodes in the slots of the pool are well formed, and the system has given them. -/
structure SlotsOk (P : Platform) (m : Memory) (pool : Pool) : Prop where
  nodes : ∀ i, ∀ n ∈ pool.nodes i,
    i < maxPoolSlot ∧ n.deallocSize = (i + 1) * P.pageSize ∧ NodeOk P n
  live : ∀ i, ∀ n ∈ pool.nodes i, n.region ∈ m.live

def FreeReadable (m : Memory) (pool : Pool) : Prop :=
  ∀ r, pool.freeCleanups = some r → ∃ c, m.records r = some c

/-- A pool between two calls. -/
structure PoolSound (P : Platform) (m : Memory) (p : Nat) (pool : Pool) : Prop where
  here : m.pools p = some pool
  home : ∃ r ∈ m.live, r.addr ≤ p ∧ p < r.stop
  slots : SlotsOk P m pool
  free : FreeReadable m pool

theorem Held.poolSound {contents : Contents} {ps : List Nat} {pendings frees : Nat → List Ref}
    (h : Held P contents m ps pendings frees) (hp : p ∈ ps) (hpool : m.pools p = some pool) :
    PoolSound P m p pool := by
  have hok := h.poolOk hp hpool
  refine ⟨hpool, ?_, ⟨hok.slots, fun i n hn => ?_⟩, fun r hr => ?_⟩
  · obtain ⟨n, hn, hat, -⟩ := hok.header
    have hpage := hok.page_le hn
    have hfits := P.cleanup_fits
    refine ⟨n.region, hok.live _ (region_mem_of_memnode hn), ?_, ?_⟩
    · simp only [Memnode.region]
      omega
    · simp only [Memnode.region, Region.stop]
      omega
  · exact hok.live _ (region_mem_of_memnode (mem_memnodes_of_slot (hok.slots i n hn).1 hn))
  · have hchain := hok.freeChain
    rw [hr] at hchain
    obtain ⟨c, -, -, hc, -⟩ := hchain.uncons
    exact ⟨c, hc⟩

theorem firstState_sound (hs : firstState = some s) (hpool : s.mem.pools firstPool = some pool) :
    PoolSound lp64 s.mem firstPool pool := by
  have hspec : Yields False (create (bump lp64 .inMemory) 1 100 none State.empty) _ :=
    create_spec (inv_empty .inMemory 1) (by simp)
  have hcreated : ∃ s', create (bump lp64 .inMemory) 1 100 none State.empty =
      .ok (Err.ok, some firstPool, s') ∧ firstState = some s' := ⟨_, rfl, rfl⟩
  obtain ⟨s', hok, hs'⟩ := hcreated
  rw [hs] at hs'
  cases hs'
  obtain ⟨pendings, frees, hinv⟩ := hspec.of_ok hok
  exact hinv.held.poolSound (List.mem_singleton_self _) hpool

theorem SlotsOk.avail_le (h : SlotsOk P m pool) {i : Nat} {n : Memnode} (hn : n ∈ pool.nodes i) :
    n.sizeAvail + P.memnodeHeader ≤ maxPoolSlot * P.pageSize := by
  obtain ⟨hi, hsize, hok⟩ := h.nodes i n hn
  have havail := hok.avail
  have hstop := hok.stop
  have hheader := hok.header
  have hle : (i + 1) * P.pageSize ≤ maxPoolSlot * P.pageSize := Nat.mul_le_mul_right _ hi
  omega

theorem fit_mem {fit : Fit} (hfit : pool.fit P a = some fit) :
    fit.node ∈ pool.nodes fit.slot ∧ a ≤ fit.node.sizeAvail := by
  obtain ⟨-, hnodes, hle⟩ := findFit_some hfit
  exact ⟨by rw [hnodes]; simp, hle⟩

theorem SlotsOk.carve (h : SlotsOk P m pool) (ha : SizeOk P a requested) {fit : Fit}
    (hfit : pool.fit P a = some fit) (record : Bool) :
    SlotsOk P m (pool.carve P fit a requested record) := by
  obtain ⟨-, hnodes, hle⟩ := findFit_some hfit
  obtain ⟨hmem, -⟩ := fit_mem hfit
  constructor
  · intro i n hn
    rcases Pool.of_mem_carve hnodes hn with hn | ⟨rfl, rfl⟩
    · exact h.nodes i n hn
    · obtain ⟨hi, hsize, hok⟩ := h.nodes _ _ hmem
      have hlt : fit.node.deallocSize < P.sizeMax := by
        rw [hsize]
        exact P.page_lt (by omega)
      exact ⟨hi, hsize, hok.carve hlt ha hle record⟩
  · intro i n hn
    rcases Pool.of_mem_carve hnodes hn with hn | ⟨rfl, rfl⟩
    · exact h.live i n hn
    · exact h.live _ fit.node hmem

theorem SlotsOk.mono (h : SlotsOk P m pool) (hlive : ∀ r ∈ m.live, r ∈ m'.live)
    (hnodes : pool'.nodes = pool.nodes) : SlotsOk P m' pool' :=
  ⟨fun i n hn => h.nodes i n (hnodes ▸ hn), fun i n hn => hlive _ (h.live i n (hnodes ▸ hn))⟩

theorem freshNode_ok {mem : Nat} (hmem : P.word ∣ mem) (ha : SizeOk P a requested)
    (hwrap : a + P.memnodeHeader < P.sizeMax) (hindex : P.getNpages a - 1 ≤ maxPoolSlot)
    (record : Bool) : NodeOk P (freshNode P mem a requested record) := by
  have hlt : P.getNpages a * P.pageSize < P.sizeMax :=
    P.page_lt (by have := P.npages_pos a; omega)
  have hroom := P.npages_spec hwrap
  have hsub := P.sub_of_le (a := P.getNpages a * P.pageSize) (b := P.memnodeHeader) (by omega) hlt
  refine (NodeOk.new hmem (by omega) hlt).carve hlt ha ?_ record
  simp only [newMemnode, hsub]
  omega

theorem SlotsOk.register (h : SlotsOk P m pool) {node : Memnode} {index : Nat}
    (hnode : NodeOk P node) (hsize : node.deallocSize = (index + 1) * P.pageSize)
    (hlive : ∀ r ∈ m.live, r ∈ m'.live) (hin : node.region ∈ m'.live)
    (hindex : index < maxPoolSlot) : SlotsOk P m' (pool.register index node) where
  nodes i n hn := by
    rcases Pool.mem_register_nodes.mp hn with hn | ⟨rfl, -, rfl⟩
    · exact h.nodes i n hn
    · exact ⟨hindex, hsize, hnode⟩
  live i n hn := by
    rcases Pool.mem_register_nodes.mp hn with hn | ⟨rfl, -, rfl⟩
    · exact hlive _ (h.live i n hn)
    · exact hin

/-! ## What small requests leave alone -/

/-- The pointers behind the slots stay, and no memnode is stored over them. -/
structure SlotsOnly (pool pool' : Pool) : Prop where
  parent : pool'.parent = pool.parent
  brother : pool'.brother = pool.brother
  child : pool'.child = pool.child
  stray : pool'.stray = pool.stray

theorem SlotsOnly.refl (pool : Pool) : SlotsOnly pool pool := ⟨rfl, rfl, rfl, rfl⟩

theorem SlotsOnly.trans (h : SlotsOnly pool pool') (h' : SlotsOnly pool' pool'') :
    SlotsOnly pool pool'' :=
  ⟨h'.parent.trans h.parent, h'.brother.trans h.brother, h'.child.trans h.child,
    h'.stray.trans h.stray⟩

structure Confined (P : Platform) (m m' : Memory) (pool pool' : Pool) : Prop
    extends SlotsOnly pool pool' where
  slots : SlotsOk P m pool → SlotsOk P m' pool'
  live : ∀ r ∈ m.live, r ∈ m'.live
  mallocs : m.mallocs ≤ m'.mallocs

theorem Confined.of_setPool (h : Confined P m m' pool pool') (honly : SlotsOnly pool' pool'')
    (hnodes : pool''.nodes = pool'.nodes) (hlive : m''.live = m'.live)
    (hmallocs : m''.mallocs = m'.mallocs) : Confined P m m'' pool pool'' where
  toSlotsOnly := h.toSlotsOnly.trans honly
  slots hs := (h.slots hs).mono (fun _ hr => hlive ▸ hr) hnodes
  live r hr := hlive ▸ h.live r hr
  mallocs := hmallocs ▸ h.mallocs

/-- A request that needs no more than the largest slot. -/
theorem pallocSlots_confined {record : Bool} (hpool : s.mem.pools p = some pool)
    (ha : SizeOk P a requested)
    (hwrap : a + P.memnodeHeader < P.sizeMax) (hindex : P.getNpages a ≤ maxPoolSlot)
    {r : Option Nat × State} (h : pallocSlots env p a requested record s = .ok r) :
    ∃ pool', r.2.mem.pools p = some pool' ∧ Confined P s.mem r.2.mem pool pool' := by
  cases hfit : pool.fit P a with
  | some fit =>
      obtain ⟨s', hok, hmem⟩ := pallocSlots_fit env requested record hpool hfit
      rw [hok] at h
      cases h
      refine ⟨pool.carve P fit a requested record, by rw [hmem, Memory.setPool_self], ?_⟩
      rw [hmem]
      exact ⟨⟨rfl, rfl, rfl, rfl⟩, fun hs => (hs.carve ha hfit record).mono (fun _ => id) rfl,
        fun _ => id, Nat.le_refl _⟩
  | none =>
      cases hanswer : env.answer s.mem (P.getNpages a * P.pageSize) with
      | none =>
          obtain ⟨s', hok, hmem⟩ := pallocSlots_refused requested record hpool hfit hanswer
          rw [hok] at h
          cases h
          refine ⟨pool, by rw [hmem]; exact hpool, ?_⟩
          rw [hmem]
          exact ⟨.refl pool, fun hs => hs.mono (fun _ => id) rfl, fun _ => id, Nat.le_succ _⟩
      | some mem =>
          obtain ⟨s', hok, hmem⟩ := pallocSlots_granted requested record hpool hfit hanswer
          rw [hok] at h
          cases h
          have hpos := P.npages_pos a
          have hne : P.getNpages a - 1 ≠ maxPoolSlot := by omega
          have halign : P.word ∣ mem := (env.sound _ _ _ _ hanswer).1
          have hslots : SlotsOk P s.mem pool →
              SlotsOk P (s.mem.granted ⟨mem, P.getNpages a * P.pageSize⟩)
                (pool.register (P.getNpages a - 1) (freshNode P mem a requested record)) := by
            intro hs
            refine hs.register (freshNode_ok halign ha hwrap (by omega) record) ?_
              (fun r hr => List.mem_cons_of_mem _ hr) (List.mem_cons_self ..) (by omega)
            rw [Nat.sub_add_cancel hpos]
            rfl
          refine ⟨pool.register (P.getNpages a - 1) (freshNode P mem a requested record),
            by rw [hmem, Memory.setPool_self], ?_⟩
          rw [hmem]
          refine ⟨?_, fun hs => (hslots hs).mono (fun _ => id) rfl,
            fun r hr => List.mem_cons_of_mem _ hr, Nat.le_succ _⟩
          rw [Pool.register, if_neg hne]
          exact ⟨rfl, rfl, rfl, rfl⟩

/-! ## Registrations -/

/-- A cleanup node can be had: a free one, room in a memnode, or a page from the system. -/
def Obtainable (env : Environment P) (m : Memory) (pool : Pool) : Prop :=
  pool.freeCleanups ≠ none ∨ pool.fit P (P.alignAllocation P.sizeofCleanup) ≠ none ∨
    env.answer m P.pageSize ≠ none

instance (env : Environment P) (m : Memory) (pool : Pool) : Decidable (Obtainable env m pool) :=
  inferInstanceAs (Decidable (_ ∨ _ ∨ _))

theorem npages_cleanup_size :
    P.getNpages (P.alignAllocation P.sizeofCleanup) * P.pageSize = P.pageSize := by
  rw [P.npages_cleanup, Nat.one_mul]

theorem takeRecord_refused (hpool : s.mem.pools p = some pool)
    (h : ¬ Obtainable env s.mem pool) : takeRecord env p s = .error .deref := by
  rw [Obtainable, not_or, not_or, not_not, not_not, not_not] at h
  obtain ⟨hfree, hfit, hanswer⟩ := h
  rw [← npages_cleanup_size (P := P)] at hanswer
  obtain ⟨s', hok, -⟩ := pallocSlots_refused P.sizeofCleanup true hpool hfit hanswer
  rw [takeRecord, State.getPool_bind hpool]
  simp only [hfree, hok]
  rfl

theorem takeRecord_done (hpool : s.mem.pools p = some pool) (hread : FreeReadable s.mem pool)
    (h : Obtainable env s.mem pool) :
    ∃ r pool', takeRecord env p s = .ok r ∧ r.2.mem.pools p = some pool' ∧
      Confined P s.mem r.2.mem pool pool' := by
  rw [takeRecord, State.getPool_bind hpool]
  cases hfree : pool.freeCleanups with
  | some r =>
      obtain ⟨c, hc⟩ := hread r hfree
      simp only [State.getRecord_bind hc]
      refine ⟨_, _, rfl, Memory.setPool_self .., ?_⟩
      exact ⟨⟨rfl, rfl, rfl, rfl⟩, fun hs => hs.mono (fun _ => id) rfl, fun _ => id,
        Nat.le_refl _⟩
  | none =>
      have hsize := npages_cleanup_size (P := P)
      have hone := P.npages_cleanup
      have ha := P.sizeOk P.cleanup_aligns
      have hwrap := Nat.lt_trans P.cleanup_fits (by simpa using P.page_lt (n := 1) (by decide))
      obtain ⟨mem, s', hok⟩ : ∃ mem s', pallocSlots env p (P.alignAllocation P.sizeofCleanup)
          P.sizeofCleanup true s = .ok (some mem, s') := by
        cases hfit : pool.fit P (P.alignAllocation P.sizeofCleanup) with
        | some fit =>
            obtain ⟨s', hok, -⟩ := pallocSlots_fit env P.sizeofCleanup true hpool hfit
            exact ⟨_, s', hok⟩
        | none =>
            have hanswer := (h.resolve_left fun hne => hne hfree).resolve_left fun hne => hne hfit
            obtain ⟨mem, hmem⟩ := Option.ne_none_iff_exists'.mp hanswer
            rw [← hsize] at hmem
            obtain ⟨s', hok, -⟩ := pallocSlots_granted P.sizeofCleanup true hpool hfit hmem
            exact ⟨_, s', hok⟩
      obtain ⟨pool', hpool', hconfined⟩ := pallocSlots_confined hpool ha hwrap
        (by rw [hone]; decide) hok
      simp only [hok]
      exact ⟨_, pool', rfl, hpool', hconfined.of_setPool ⟨rfl, rfl, rfl, rfl⟩ rfl rfl rfl⟩

/-- Without a node the null pointer is followed. -/
theorem cleanupAdd_refused (data : Nat) (handler : Handler) (hpool : s.mem.pools p = some pool)
    (h : ¬ Obtainable env s.mem pool) : cleanupAdd env p data handler s = .error .deref := by
  have hlock : takeRecord env p (s.lock P pool.mutex) = .error .deref :=
    takeRecord_refused (by rwa [State.lock_mem]) (by rwa [State.lock_mem])
  rw [cleanupAdd, State.getPool_bind hpool]
  simp only [hlock]
  rfl

theorem cleanupAdd_done (data : Nat) (handler : Handler) (hpool : s.mem.pools p = some pool)
    (hread : FreeReadable s.mem pool) (h : Obtainable env s.mem pool) :
    ∃ s' pool', cleanupAdd env p data handler s = .ok s' ∧ s'.mem.pools p = some pool' ∧
      Confined P s.mem s'.mem pool pool' := by
  have hlock : ∃ r pool', takeRecord env p (s.lock P pool.mutex) = .ok r ∧
      r.2.mem.pools p = some pool' ∧ Confined P (s.lock P pool.mutex).mem r.2.mem pool pool' :=
    takeRecord_done (by rwa [State.lock_mem]) (by rwa [State.lock_mem]) (by rwa [State.lock_mem])
  obtain ⟨⟨r, s₁⟩, pool', hok, hpool', hconfined⟩ := hlock
  rw [State.lock_mem] at hconfined
  rw [cleanupAdd, State.getPool_bind hpool]
  simp only [hok]
  refine ⟨((s₁.setRecord P r ⟨pool'.cleanups, data, handler⟩).setPool p
    { pool' with cleanups := some r }).unlock P pool'.mutex, { pool' with cleanups := some r },
    ?_, ?_, ?_⟩
  · change (s₁.getPool p >>= _) = _
    rw [State.getPool_bind hpool']
  · rw [State.unlock_mem, State.setPool_mem, Memory.setPool_self]
  · rw [State.unlock_mem, State.setPool_mem, State.setRecord_mem]
    exact hconfined.of_setPool ⟨rfl, rfl, rfl, rfl⟩ rfl rfl rfl

/-! ## `fpx_palloc1` -/

variable {size : Nat}

theorem palloc_zero (env : Environment P) (hpool : s.mem.pools p = some pool)
    (h : P.alignAllocation size = 0) :
    palloc env p size s = .ok (none, s.unlock P pool.mutex) := by
  rw [palloc, State.getPool_bind hpool, if_pos h]

theorem palloc_slots (env : Environment P) (hpool : s.mem.pools p = some pool)
    (h : P.alignAllocation size ≠ 0)
    (hindex : P.getNpages (P.alignAllocation size) ≤ maxPoolSlot + 1) :
    palloc env p size s = pallocSlots env p (P.alignAllocation size) size false s := by
  rw [palloc, State.getPool_bind hpool, if_neg h, if_neg (by omega)]

theorem palloc_refused (hpool : s.mem.pools p = some pool) (h : P.alignAllocation size ≠ 0)
    (hindex : maxPoolSlot + 1 < P.getNpages (P.alignAllocation size))
    (hanswer : env.answer s.mem (P.alignAllocation size) = none) :
    ∃ s', palloc env p size s = .ok (none, s') ∧ s'.mem = s.mem.refused := by
  obtain ⟨s₁, hm, hmem⟩ := malloc_refused hanswer
  refine ⟨s₁.unlock P pool.mutex, ?_, by rw [State.unlock_mem, hmem]⟩
  rw [palloc, State.getPool_bind hpool, if_neg h, if_pos (by omega), hm]

def Pool.handed (pool : Pool) (b : Block) : Pool := { pool with large := b :: pool.large }

def Memory.handed (m : Memory) (p : Nat) (pool : Pool) (b : Block) : Memory :=
  (m.granted b.region).setPool p (pool.handed b)

theorem PoolSound.handed (h : PoolSound P m p pool) (b : Block) :
    PoolSound P (m.handed p pool b) p (pool.handed b) where
  here := Memory.setPool_self ..
  home := by
    obtain ⟨r, hr, hat⟩ := h.home
    exact ⟨r, List.mem_cons_of_mem _ hr, hat⟩
  slots := h.slots.mono (fun _ hr => List.mem_cons_of_mem _ hr) rfl
  free := h.free

/-- A request that goes to the system allocator, which grants it: what is left is the
registration of the block. -/
theorem palloc_granted (hpool : s.mem.pools p = some pool) (h : P.alignAllocation size ≠ 0)
    (hindex : maxPoolSlot + 1 < P.getNpages (P.alignAllocation size)) {mem : Nat}
    (hanswer : env.answer s.mem (P.alignAllocation size) = some mem) :
    ∃ s₁, s₁.mem = s.mem.handed p pool ⟨mem, P.alignAllocation size, size, false⟩ ∧
      palloc env p size s =
        (cleanupAdd env p mem .free s₁).map fun s => (some mem, s.unlock P pool.mutex) := by
  obtain ⟨s₀, hm, hmem⟩ := malloc_granted hanswer
  have hpool' : s₀.mem.pools p = some pool := by rw [hmem]; exact hpool
  let s₁ := s₀.setPool p (pool.handed ⟨mem, P.alignAllocation size, size, false⟩)
  refine ⟨s₁, ?_, ?_⟩
  · rw [State.setPool_mem, hmem]
    rfl
  · rw [palloc, State.getPool_bind hpool, if_neg h, if_pos (by omega), hm]
    change (s₀.handOut p _ >>= _) = _
    rw [State.handOut, State.getPool_bind hpool']
    change (cleanupAdd env p mem .free s₁ >>= _) = _
    cases cleanupAdd env p mem .free s₁ <;> rfl

theorem obtainable_handed (env : Environment P) (m : Memory) (p : Nat) (pool : Pool) (b : Block) :
    Obtainable env (m.handed p pool b) (pool.handed b) ↔
      Obtainable env (m.granted ⟨b.addr, b.size⟩) pool := Iff.rfl

end Floppix.Pools
