import Floppix.System.Pool.Accounting
import Floppix.System.Pool.NewPool

/-! # Which slots memnodes are stored in

`nodes` has `FPX_MAX_POOL_SLOT` entries, and `parent` lies behind them. A memnode of one
page more than there are slots is stored there, where nothing looks for it.
-/

namespace Floppix.Pools

open Layout Outcome

variable {P : Platform} {env : Environment P} {m m' : Memory} {p : Nat} {pool pool' : Pool}
  {s s' : State} {thread size : Nat} {parent : Option Nat}

/-! ## What the slots lead to -/

/-- Every memnode of the pool is counted in its total size, reset where `fpx_pool_clear`
rewinds the pool, and deallocated by the loop of `fpx_pool_destroy`. -/
structure Reached (P : Platform) (p : Nat) (pool : Pool) : Prop where
  counted : getTotalSize P pool = P.wrap (pool.memnodes.map Memnode.deallocSize).sum
  reset : ∀ n ∈ pool.rewind.memnodes, n.firstAvail = n.begin ∧ n.sizeAvail = n.size
  freed : ∀ s : State, s.mem.pools p = some pool →
    ∃ s' es, destroySlots p (List.range maxPoolSlot) s = .ok s' ∧ s'.events = s.events ++ es ∧
      ∀ n ∈ pool.memnodes, n.addr ∈ deallocs es

/-- A memnode in a slot has as many pages as the slot says. -/
def Filed (P : Platform) (pool : Pool) : Prop :=
  ∀ i, ∀ n ∈ pool.nodes i, n.deallocSize = (i + 1) * P.pageSize

theorem SlotsOk.filed (h : SlotsOk P m pool) : Filed P pool := fun i n hn => (h.nodes i n hn).2.1

theorem memnodes_of_stray (h : pool.stray = []) : pool.memnodes = pool.slotNodes := by
  rw [Pool.memnodes, h, List.append_nil, Pool.slotNodes]

theorem Filed.total (h : Filed P pool) :
    getTotalSize P pool = P.wrap (pool.slotNodes.map Memnode.deallocSize).sum := by
  rw [getTotalSize, sumNodes_flatMap, Pool.slotNodes, List.map_flatMap]
  refine congrArg (fun sizes => P.wrap (List.sum sizes)) (List.flatMap_congr fun i hi => ?_)
  apply List.map_congr_left
  intro n hn
  have hlt : (i + 1) * P.pageSize < P.sizeMax := P.page_lt (by have := List.mem_range.mp hi; omega)
  rw [h i n hn, Nat.mul_comm, P.wrap_of_lt hlt]

theorem Filed.reached (h : Filed P pool) (hstray : pool.stray = []) (p : Nat) :
    Reached P p pool where
  counted := by rw [h.total, memnodes_of_stray hstray]
  reset n hn := by
    have hstray' : pool.rewind.stray = [] := by rw [Pool.rewind, hstray]; rfl
    rw [memnodes_of_stray hstray'] at hn
    obtain ⟨i, -, hi⟩ := List.mem_flatMap.mp hn
    obtain ⟨n', -, rfl⟩ := List.mem_map.mp hi
    exact ⟨rfl, rfl⟩
  freed s hs := by
    refine ⟨_, _, destroySlots_eq _ hs, rfl, fun n hn => ?_⟩
    rw [deallocs_slotEvents]
    rw [memnodes_of_stray hstray] at hn
    exact List.mem_map_of_mem hn

/-! ## `fpx_palloc` -/

/-- A call that returns has used the slots only, and the slots lead to all memnodes of a pool
of which that held. -/
def PallocInSlots (env : Environment P) (p size : Nat) (s : State) (pool : Pool) : Prop :=
  ∀ r s', palloc env p size s = .ok (r, s') → ∃ pool', s'.mem.pools p = some pool' ∧
    SlotsOnly pool pool' ∧ (pool.stray = [] → Reached P p pool')

/-- The page count is not one more than there are slots, or no memnode is allocated. -/
def PallocInRange (env : Environment P) (m : Memory) (size : Nat) : Prop :=
  P.alignAllocation size = 0 ∨ P.getNpages (P.alignAllocation size) ≠ maxPoolSlot + 1 ∨
    env.answer m ((maxPoolSlot + 1) * P.pageSize) = none

theorem SlotsOnly.of_filed (h : SlotsOnly pool pool') (hfiled : Filed P pool') (p : Nat) :
    SlotsOnly pool pool' ∧ (pool.stray = [] → Reached P p pool') :=
  ⟨h, fun hstray => hfiled.reached (h.stray.trans hstray) p⟩

theorem Filed.carve (h : Filed P pool) {a : Nat} {fit : Fit} (hfit : pool.fit P a = some fit)
    (requested : Nat) (record : Bool) : Filed P (pool.carve P fit a requested record) := by
  obtain ⟨-, hnodes, -⟩ := findFit_some hfit
  intro i n hn
  rcases Pool.of_mem_carve hnodes hn with hn | ⟨rfl, rfl⟩
  · exact h i n hn
  · exact h _ fit.node (fit_mem hfit).1

theorem Filed.register (h : Filed P pool) {npages : Nat} (hpos : 0 < npages)
    (hpages : npages ≤ maxPoolSlot) {n : Memnode} (hn : n.deallocSize = npages * P.pageSize) :
    SlotsOnly pool (pool.register (npages - 1) n) ∧ Filed P (pool.register (npages - 1) n) := by
  refine ⟨?_, fun i n' hn' => ?_⟩
  · rw [Pool.register, if_neg (by omega)]
    exact ⟨rfl, rfl, rfl, rfl⟩
  · rcases Pool.mem_register_nodes.mp hn' with hn' | ⟨rfl, -, rfl⟩
    · exact h i n' hn'
    · rw [hn, Nat.sub_add_cancel hpos]

/-- A block is in a memnode of a slot, or its memnode goes to one. -/
theorem pallocSlots_inSlots (h : PoolSound P s.mem p pool) {a requested : Nat} {record : Bool}
    (hrange : P.getNpages a ≤ maxPoolSlot ∨
      env.answer s.mem (P.getNpages a * P.pageSize) = none) {r : Option Nat × State}
    (hok : pallocSlots env p a requested record s = .ok r) :
    ∃ pool', r.2.mem.pools p = some pool' ∧ SlotsOnly pool pool' ∧ Filed P pool' := by
  cases hfit : pool.fit P a with
  | some fit =>
      obtain ⟨s', hok', hmem⟩ := pallocSlots_fit env requested record h.here hfit
      rw [hok'] at hok
      cases hok
      refine ⟨pool.carve P fit a requested record, by rw [hmem, Memory.setPool_self],
        ⟨rfl, rfl, rfl, rfl⟩, h.slots.filed.carve hfit requested record⟩
  | none =>
      cases hanswer : env.answer s.mem (P.getNpages a * P.pageSize) with
      | none =>
          obtain ⟨s', hok', hmem⟩ := pallocSlots_refused requested record h.here hfit hanswer
          rw [hok'] at hok
          cases hok
          exact ⟨pool, by rw [hmem]; exact h.here, SlotsOnly.refl pool, h.slots.filed⟩
      | some mem =>
          obtain ⟨s', hok', hmem⟩ := pallocSlots_granted requested record h.here hfit hanswer
          rw [hok'] at hok
          cases hok
          have hpages := hrange.resolve_right (by simp [hanswer])
          exact ⟨_, by rw [hmem, Memory.setPool_self],
            h.slots.filed.register (P.npages_pos a) hpages rfl⟩

theorem palloc_large_inSlots (h : PoolSound P s.mem p pool) (ha : P.alignAllocation size ≠ 0)
    (hindex : maxPoolSlot + 1 < P.getNpages (P.alignAllocation size)) :
    PallocInSlots env p size s pool := by
  intro r s' hok
  cases hanswer : env.answer s.mem (P.alignAllocation size) with
  | none =>
      obtain ⟨s'', hok', hmem⟩ := palloc_refused h.here ha hindex hanswer
      rw [hok'] at hok
      cases hok
      exact ⟨pool, by rw [hmem]; exact h.here, (SlotsOnly.refl pool).of_filed h.slots.filed p⟩
  | some mem =>
      obtain ⟨s₁, hmem₁, hcall⟩ := palloc_granted h.here ha hindex hanswer
      have hsound := h.handed ⟨mem, P.alignAllocation size, size, false⟩
      rw [← hmem₁] at hsound
      rw [hcall] at hok
      by_cases hobt : Obtainable env s₁.mem
          (pool.handed ⟨mem, P.alignAllocation size, size, false⟩)
      · obtain ⟨s₂, pool₂, hadd, hpool₂, hconfined⟩ :=
          cleanupAdd_done mem .free hsound.here hsound.free hobt
        rw [hadd] at hok
        cases hok
        refine ⟨pool₂, by rw [State.unlock_mem]; exact hpool₂, ?_⟩
        have hfirst : SlotsOnly pool
            (pool.handed ⟨mem, P.alignAllocation size, size, false⟩) := ⟨rfl, rfl, rfl, rfl⟩
        have honly := hfirst.trans hconfined.toSlotsOnly
        exact honly.of_filed (hconfined.slots hsound.slots).filed p
      · rw [cleanupAdd_refused mem .free hsound.here hobt] at hok
        cases hok

/-- The memnode that is stored over `parent`. -/
theorem palloc_stray (h : PoolSound P s.mem p pool) (ha : P.alignAllocation size ≠ 0)
    (hpages : P.getNpages (P.alignAllocation size) = maxPoolSlot + 1) {mem : Nat}
    (hanswer : env.answer s.mem ((maxPoolSlot + 1) * P.pageSize) = some mem) :
    ¬ PallocInSlots env p size s pool := by
  intro hin
  have hfit : pool.fit P (P.alignAllocation size) = none := by
    rw [Pool.fit, hpages]
    rfl
  rw [← hpages] at hanswer
  obtain ⟨s', hok, hmem⟩ := pallocSlots_granted size false h.here hfit hanswer
  rw [← palloc_slots env h.here ha (Nat.le_of_eq hpages)] at hok
  obtain ⟨pool', hpool', honly, -⟩ := hin _ _ hok
  rw [hmem, Memory.setPool_self] at hpool'
  cases hpool'
  have hstray := honly.stray
  rw [Pool.register, if_pos (by omega)] at hstray
  exact List.cons_ne_self _ _ hstray

theorem palloc_inSlots_iff (h : PoolSound P s.mem p pool) :
    PallocInSlots env p size s pool ↔ PallocInRange env s.mem size := by
  unfold PallocInRange
  by_cases ha : P.alignAllocation size = 0
  · refine iff_of_true (fun r s' hok => ?_) (Or.inl ha)
    rw [palloc_zero env h.here ha] at hok
    cases hok
    exact ⟨pool, by rw [State.unlock_mem]; exact h.here,
      (SlotsOnly.refl pool).of_filed h.slots.filed p⟩
  by_cases hlarge : maxPoolSlot + 1 < P.getNpages (P.alignAllocation size)
  · exact iff_of_true (palloc_large_inSlots h ha hlarge) (Or.inr (Or.inl (by omega)))
  have hslots (hrange : P.getNpages (P.alignAllocation size) ≤ maxPoolSlot ∨
      env.answer s.mem (P.getNpages (P.alignAllocation size) * P.pageSize) = none) :
      PallocInSlots env p size s pool := fun r s' hok => by
    rw [palloc_slots env h.here ha (by omega)] at hok
    obtain ⟨pool', hpool', honly, hfiled⟩ := pallocSlots_inSlots h hrange hok
    exact ⟨pool', hpool', honly.of_filed hfiled p⟩
  by_cases hpages : P.getNpages (P.alignAllocation size) = maxPoolSlot + 1
  · cases hanswer : env.answer s.mem ((maxPoolSlot + 1) * P.pageSize) with
    | none =>
        exact iff_of_true (hslots (Or.inr (by rw [hpages]; exact hanswer)))
          (Or.inr (Or.inr rfl))
    | some mem =>
        apply iff_of_false (palloc_stray h ha hpages hanswer)
        simp [ha, hpages]
  · exact iff_of_true (hslots (Or.inl (by omega))) (Or.inr (Or.inl hpages))

/-! ## `fpx_pool_create` -/

/-- A pool that is created is linked to its parent, and its slots lead to its memnode. -/
def CreateInSlots (env : Environment P) (thread size : Nat) (parent : Option Nat) (s : State) :
    Prop :=
  ∀ new s', create env thread size parent s = .ok (Err.ok, some new, s') →
    ∃ pool', s'.mem.pools new = some pool' ∧ pool'.parent = parent ∧
      pool'.brother = (parent.bind fun q => (s.mem.pools q).bind Pool.child) ∧
      pool'.child = none ∧ pool'.stray = [] ∧ Reached P new pool'

/-- The page count is not one more than there are slots, or no pool is created. -/
def CreateInRange (env : Environment P) (m : Memory) (parent : Option Nat) (size : Nat) : Prop :=
  P.alignAllocation size = 0 ∨ newPages P size ≠ maxPoolSlot + 1 ∨
    ∀ mem, env.answer m ((maxPoolSlot + 1) * P.pageSize) = some mem →
      MutexFails env parent (mem + P.memnodeHeader + P.poolHeader)

theorem Opened.filed {mem : Nat} {n : Memnode} (h : Opened P size parent mem m m' pool n) :
    Filed P pool := by
  intro i x hx
  have hpos := newPages_pos P size
  rw [h.nodes] at hx
  split at hx
  · cases hx
  · by_cases hi : i = newPages P size - 1
    · subst hi
      rw [Function.update_self, List.mem_singleton] at hx
      rw [hx, Nat.sub_add_cancel hpos]
      exact h.home.dealloc
    · rw [Function.update_of_ne hi] at hx
      cases hx

theorem create_inSlots_iff (hparent : ∀ q, parent = some q → ∃ old, PoolSound P s.mem q old) :
    CreateInSlots env thread size parent s ↔ CreateInRange env s.mem parent size := by
  unfold CreateInSlots CreateInRange
  by_cases hrefuses : RefusesSize P size
  · refine iff_of_true (fun new s' hok => ?_) ?_
    · rw [create_outOfRange env thread parent s hrefuses] at hok
      cases hok
    · rcases hrefuses with ha | hpages
      · exact Or.inl ha
      · exact Or.inr (Or.inl (by omega))
  have ha : P.alignAllocation size ≠ 0 := fun ha => hrefuses (Or.inl ha)
  cases hanswer : env.answer s.mem (newPages P size * P.pageSize) with
  | none =>
      refine iff_of_true (fun new s' hok => ?_) ?_
      · obtain ⟨s'', hok', -⟩ := create_refused thread parent hrefuses hanswer
        rw [hok'] at hok
        have herr := congrArg Prod.fst (Except.ok.inj hok)
        exact absurd herr env.mallocErrno.code_ne_ok
      · by_cases hpages : newPages P size = maxPoolSlot + 1
        · rw [hpages] at hanswer
          simp [hanswer]
        · exact Or.inr (Or.inl hpages)
  | some mem =>
      by_cases hmutex : MutexFails env parent (mem + P.memnodeHeader + P.poolHeader)
      · refine iff_of_true (fun new s' hok => ?_) ?_
        · obtain ⟨err, s'', hok', herr, -⟩ := create_mutexFailed thread hrefuses hanswer hmutex
          rw [hok'] at hok
          exact absurd (congrArg Prod.fst (Except.ok.inj hok)) herr
        · by_cases hpages : newPages P size = maxPoolSlot + 1
          · refine Or.inr (Or.inr fun mem' hmem' => ?_)
            rw [← hpages, hanswer] at hmem'
            cases hmem'
            exact hmutex
          · exact Or.inr (Or.inl hpages)
      · obtain ⟨s', pool', n, hok, hopened⟩ :=
          create_done thread hrefuses hanswer hmutex hparent
        by_cases hpages : newPages P size = maxPoolSlot + 1
        · refine iff_of_false (fun hin => ?_) ?_
          · obtain ⟨pool'', hpool'', -, -, -, hstray, -⟩ := hin _ _ hok
            rw [hopened.here] at hpool''
            cases hpool''
            rw [hopened.stray, if_pos hpages] at hstray
            cases hstray
          · rw [hpages] at hanswer
            simp [ha, hpages, hanswer, hmutex]
        · refine iff_of_true (fun new s'' hok' => ?_) (Or.inr (Or.inl hpages))
          rw [hok] at hok'
          cases hok'
          have hstray := hopened.stray
          have hup := hopened.parent
          rw [if_neg hpages] at hstray hup
          rw [Option.or_none] at hup
          exact ⟨pool', hopened.here, hup, hopened.brother, hopened.child, hstray,
            hopened.filed.reached hstray _⟩

/-! ## The page count that is off by one -/

/-- Both functions keep to the slots exactly for the page counts that have one. -/
theorem slot_indices_iff (h : PoolSound P s.mem p pool)
    (hparent : ∀ q, parent = some q → ∃ old, PoolSound P s.mem q old) :
    (PallocInSlots env p size s pool ↔ PallocInRange env s.mem size) ∧
      (CreateInSlots env thread size parent s ↔ CreateInRange env s.mem parent size) :=
  ⟨palloc_inSlots_iff h, create_inSlots_iff hparent⟩

theorem slot_indices_first : ∃ s pool, firstState = some s ∧
    s.mem.pools firstPool = some pool ∧
    (PallocInSlots (bump lp64 .inMemory) firstPool 5000 s pool ↔
      PallocInRange (bump lp64 .inMemory) s.mem 5000) ∧
    (CreateInSlots (bump lp64 .inMemory) 1 5000 (some firstPool) s ↔
      CreateInRange (bump lp64 .inMemory) s.mem (some firstPool) 5000) := by
  have h : ∃ s pool, firstState = some s ∧ s.mem.pools firstPool = some pool := ⟨_, _, rfl, rfl⟩
  obtain ⟨s, pool, hs, hpool⟩ := h
  have hsound := firstState_sound hs hpool
  refine ⟨s, pool, hs, hpool, slot_indices_iff hsound fun q hq => ?_⟩
  cases hq
  exact ⟨pool, hsound⟩

/-- A block of 20 pages is carved from a memnode that takes the place of `parent`, and the
first memnode of a pool of that size is where nothing finds it. -/
theorem slot_index_twenty : ∃ s pool, firstState = some s ∧
    PoolSound lp64 s.mem firstPool pool ∧
    (∃ a s' pool', palloc (bump lp64 .inMemory) firstPool 81920 s = .ok (some a, s') ∧
      s'.mem.pools firstPool = some pool' ∧ pool.parent = none ∧ pool'.parent ≠ none ∧
      getTotalSize lp64 pool' = getTotalSize lp64 pool ∧ pool'.memnodes.length = 2) ∧
    (∃ new s' pool', create (bump lp64 .inMemory) 1 81920 none s = .ok (Err.ok, some new, s') ∧
      s'.mem.pools new = some pool' ∧ pool'.parent ≠ none ∧ getTotalSize lp64 pool' = 0 ∧
      pool'.memnodes.length = 1) ∧
    ¬ PallocInSlots (bump lp64 .inMemory) firstPool 81920 s pool ∧
    ¬ CreateInSlots (bump lp64 .inMemory) 1 81920 none s := by
  have h : ∃ s pool, firstState = some s ∧ s.mem.pools firstPool = some pool ∧
      (∃ a s' pool', palloc (bump lp64 .inMemory) firstPool 81920 s = .ok (some a, s') ∧
        s'.mem.pools firstPool = some pool' ∧ pool.parent = none ∧ pool'.parent ≠ none ∧
        getTotalSize lp64 pool' = getTotalSize lp64 pool ∧ pool'.memnodes.length = 2) ∧
      (∃ new s' pool', create (bump lp64 .inMemory) 1 81920 none s =
        .ok (Err.ok, some new, s') ∧ s'.mem.pools new = some pool' ∧ pool'.parent ≠ none ∧
        getTotalSize lp64 pool' = 0 ∧ pool'.memnodes.length = 1) :=
    ⟨_, _, rfl, rfl, ⟨_, _, _, rfl, rfl, rfl, by decide, rfl, rfl⟩,
      ⟨_, _, _, rfl, rfl, by decide, rfl, rfl⟩⟩
  obtain ⟨s, pool, hs, hpool, hpalloc, hcreate⟩ := h
  refine ⟨s, pool, hs, firstState_sound hs hpool, hpalloc, hcreate, fun hin => ?_, fun hin => ?_⟩
  · obtain ⟨a, s', pool', hok, hpool', hnone, hsome, -⟩ := hpalloc
    obtain ⟨pool'', hpool'', honly, -⟩ := hin _ _ hok
    rw [hpool'] at hpool''
    cases hpool''
    exact hsome (honly.parent.trans hnone)
  · obtain ⟨new, s', pool', hok, hpool', hsome, -⟩ := hcreate
    obtain ⟨pool'', hpool'', hnone, -⟩ := hin _ _ hok
    rw [hpool'] at hpool''
    cases hpool''
    exact hsome hnone

end Floppix.Pools
