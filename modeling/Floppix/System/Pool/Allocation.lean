import Floppix.System.Pool.Places

/-! # Allocations keep the invariant

What `malloc` gives is new, and a block carved from a memnode is apart from everything
else as long as no cleanup node lies where it is carved.
-/

namespace Floppix.Pools

open Layout LinkedList Outcome

variable {P : Platform} {env : Environment P} {contents : Contents} {m m' : Memory} {p : Nat}
  {pool pool' : Pool} {ps : List Nat} {pendings frees : Nat → List Ref} {s s' : State}

/-! ## New memory -/

structure Grown (P : Platform) (m m' : Memory) (r : Region) : Prop where
  aligned : P.word ∣ r.addr
  apart : ∀ q ∈ m.live, Region.Apart r q
  live : m'.live = r :: m.live
  pools : m'.pools = m.pools
  records : m'.records = m.records
  recordCount : m'.recordCount = m.recordCount

theorem Grown.new {r : Region} (h : Grown P m m' r) (hr : 0 < r.size) : r ∉ m.live :=
  fun hmem => (h.apart r hmem).ne hr rfl

theorem Grown.heap {r : Region} (h : Grown P m m' r)
    (hheap : ∀ x ∈ m.live, ∀ y ∈ m.live, x ≠ y → Region.Apart x y) :
    ∀ x ∈ m'.live, ∀ y ∈ m'.live, x ≠ y → Region.Apart x y := by
  intro x hx y hy hne
  rw [h.live] at hx hy
  rcases List.mem_cons.mp hx with hxr | hx <;> rcases List.mem_cons.mp hy with hyr | hy
  · exact absurd (hxr.trans hyr.symm) hne
  · exact hxr ▸ h.apart y hy
  · exact hyr ▸ (h.apart x hx).symm
  · exact hheap x hx y hy hne

theorem malloc_none {size : Nat} (h : malloc env size s = (none, s')) :
    ¬ env.Succeeds ∧ s'.mem.live = s.mem.live ∧ s'.mem.pools = s.mem.pools ∧
      s'.mem.records = s.mem.records ∧ s'.mem.recordCount = s.mem.recordCount := by
  unfold malloc at h
  split at h
  · rename_i hm
    cases h
    refine ⟨fun hs => ?_, rfl, rfl, rfl, rfl⟩
    obtain ⟨a, ha⟩ := hs.1 s.mem.mallocs s.mem.live size
    rw [hm] at ha
    cases ha
  · cases h

theorem malloc_some {size a : Nat} (h : malloc env size s = (some a, s')) :
    Grown P s.mem s'.mem ⟨a, size⟩ := by
  unfold malloc at h
  split at h
  · cases h
  · rename_i a' hm
    cases h
    obtain ⟨haligned, hapart⟩ := env.sound _ _ _ _ hm
    exact ⟨haligned, hapart, rfl, rfl, rfl, rfl⟩

theorem memnodeAllocate_none {size : Nat} (h : memnodeAllocate env size s = (none, s')) :
    ¬ env.Succeeds ∧ s'.mem.live = s.mem.live ∧ s'.mem.pools = s.mem.pools ∧
      s'.mem.records = s.mem.records ∧ s'.mem.recordCount = s.mem.recordCount := by
  unfold memnodeAllocate at h
  split at h
  · rename_i hm
    cases h
    exact malloc_none hm
  · cases h

theorem memnodeAllocate_some {size : Nat} {node : Memnode}
    (h : memnodeAllocate env size s = (some node, s')) :
    ∃ mem, node = newMemnode P mem size ∧ Grown P s.mem s'.mem ⟨mem, size⟩ := by
  unfold memnodeAllocate at h
  split at h
  · cases h
  · rename_i mem s₁ hm
    cases h
    exact ⟨mem, rfl, malloc_some hm⟩

/-! ## `fpx_palloc1` from the search on -/

/-- No cleanup node lies where a block of this size would be carved from a memnode of the
pool. -/
def CarveSafe (P : Platform) (pool : Pool) (listed : Ref → Prop) (a : Nat) : Prop :=
  ∀ fit, findFit a pool.nodes (slotsFrom (P.getNpages a - 1)) = some fit →
    ∀ r, listed r → r.tag = 0 → Region.Apart ⟨fit.node.firstAvail, a⟩ (recordRegion P r)

structure Allocated (P : Platform) (pool pool' : Pool) (b : Block) (listed : List Ref) :
    Prop where
  cleanups : pool'.cleanups = pool.cleanups
  freeCleanups : pool'.freeCleanups = pool.freeCleanups
  large : pool'.large = pool.large
  node : ∃ n ∈ pool'.memnodes, b ∈ n.carved
  slot : P.getNpages b.size ≤ maxPoolSlot → ∃ i, ∃ n ∈ pool'.nodes i, b ∈ n.carved
  apart : ∀ r ∈ listed, r.tag = 0 → Region.Apart b.region (recordRegion P r)

/-- The outcome of an allocation: the invariant holds, and there is a block or the
system has none. -/
structure PallocPost (env : Environment P) (contents : Contents) (ps : List Nat)
    (pendings frees : Nat → List Ref) (s : State) (p : Nat) (pool : Pool)
    (a requested : Nat) (record : Bool) (r : Option Nat × State) : Prop where
  held : Held P contents r.2.mem ps pendings frees
  records : r.2.mem.records = s.mem.records
  recordCount : r.2.mem.recordCount = s.mem.recordCount
  none : r.1 = none → ¬ env.Succeeds
  some : ∀ mem, r.1 = some mem → ∃ pool', r.2.mem.pools p = some pool' ∧
    Allocated P pool pool' ⟨mem, a, requested, record⟩ (pendings p ++ frees p)

theorem slotsFrom_lt {i index : Nat} (h : i ∈ slotsFrom index) : i < maxPoolSlot :=
  List.mem_range.mp (List.mem_of_mem_drop h)

theorem Held.carve {a requested : Nat} (h : Held P contents m ps pendings frees) (hp : p ∈ ps)
    (hpool : m.pools p = some pool) (ha : SizeOk P a requested) {fit : Fit}
    (hfit : findFit a pool.nodes (slotsFrom (P.getNpages a - 1)) = some fit)
    (hsafe : CarveSafe P pool (· ∈ pendings p ++ frees p) a) (record : Bool) :
    Held P contents (m.setPool p (pool.carve P fit a requested record)) ps pendings frees ∧
      Allocated P pool (pool.carve P fit a requested record)
        ⟨fit.node.firstAvail, a, requested, record⟩ (pendings p ++ frees p) := by
  have hok := h.poolOk hp hpool
  obtain ⟨hslot, hnodes, havail⟩ := findFit_some hfit
  have hcarve := hok.carve hnodes ha havail record (hsafe fit hfit)
  have hmem : fit.node.carve P a requested record ∈
      (pool.carve P fit a requested record).nodes fit.slot := Pool.carve_mem
  have hblock : (⟨fit.node.firstAvail, a, requested, record⟩ : Block) ∈
      (fit.node.carve P a requested record).carved := by simp [Memnode.carve]
  constructor
  · refine h.update_blocks hp hpool rfl h.heap (fun r hr => hr) rfl rfl
      (hcarve.congr hcarve.live (fun _ _ => rfl) (Nat.le_refl _)) (fun b hb => hb) ?_
    intro r hr
    rw [Pool.carve_regions hnodes] at hr
    exact Or.inl hr
  · exact ⟨rfl, rfl, rfl, ⟨_, mem_memnodes_of_slot (slotsFrom_lt hslot) hmem, hblock⟩,
      fun _ => ⟨_, _, hmem, hblock⟩, hsafe fit hfit⟩

theorem Held.register {a requested mem : Nat} (h : Held P contents m ps pendings frees)
    (hp : p ∈ ps) (hpool : m.pools p = some pool) (ha : SizeOk P a requested)
    (hwrap : a + P.memnodeHeader < P.sizeMax) (hindex : P.getNpages a - 1 ≤ maxPoolSlot)
    (hgrown : Grown P m m' ⟨mem, P.getNpages a * P.pageSize⟩) (record : Bool) {node : Memnode}
    (hnode : node = (newMemnode P mem (P.getNpages a * P.pageSize)).carve P a requested record) :
    Held P contents (m'.setPool p (pool.register (P.getNpages a - 1) node)) ps pendings frees ∧
      Allocated P pool (pool.register (P.getNpages a - 1) node)
        ⟨mem + P.memnodeHeader, a, requested, record⟩ (pendings p ++ frees p) := by
  have hok := h.poolOk hp hpool
  have hpages := P.npages_pos a
  have hlt : P.getNpages a * P.pageSize < P.sizeMax := P.page_lt (by omega)
  have hroom := P.npages_spec hwrap
  have hsize : P.sub (P.getNpages a * P.pageSize) P.memnodeHeader =
      P.getNpages a * P.pageSize - P.memnodeHeader := P.sub_of_le (by omega) hlt
  have hnodeOk : NodeOk P node := by
    rw [hnode]
    refine (NodeOk.new hgrown.aligned (by omega) hlt).carve hlt ha ?_ record
    simp only [newMemnode, hsize]
    omega
  have hregion : node.region = ⟨mem, P.getNpages a * P.pageSize⟩ := by rw [hnode]; rfl
  have hdealloc : node.deallocSize = (P.getNpages a - 1 + 1) * P.pageSize := by
    rw [hnode, Nat.sub_add_cancel hpages]
    rfl
  have hnotin : node.region ∉ m.live := by
    rw [hregion]
    exact hgrown.new (Nat.mul_pos hpages P.page_pos)
  have hlive : ∀ q ∈ m.live, q ∈ m'.live := fun q hq => by
    rw [hgrown.live]
    exact List.mem_cons_of_mem _ hq
  have hin : node.region ∈ m'.live := by
    rw [hregion, hgrown.live]
    exact List.mem_cons_self ..
  have hregister := hok.register hindex hdealloc hnodeOk hin hnotin hlive hgrown.records
    hgrown.recordCount
  have hblock : (⟨mem + P.memnodeHeader, a, requested, record⟩ : Block) ∈ node.carved := by
    rw [hnode]
    simp [Memnode.carve, newMemnode]
  have hmem : node ∈ (pool.register (P.getNpages a - 1) node).memnodes :=
    (pool.register_memnodes node hindex).mem_iff.mpr (List.mem_cons_self ..)
  constructor
  · refine h.update_blocks hp hpool ?_ (hgrown.heap h.heap) hlive hgrown.records
      hgrown.recordCount (hregister.congr hregister.live (fun _ _ => rfl) (Nat.le_refl _)) ?_ ?_
    · simp only [Memory.setPool, hgrown.pools]
    · intro b hb
      rwa [Pool.register_large]
    · intro r hr
      rcases List.mem_cons.mp ((pool.register_regions node hindex).mem_iff.mp hr) with rfl | hr
      · exact Or.inr hnotin
      · exact Or.inl hr
  · refine ⟨Pool.register_cleanups .., Pool.register_freeCleanups .., Pool.register_large ..,
      ⟨node, hmem, hblock⟩, fun hslot => ?_, fun r hr ht => ?_⟩
    · simp only at hslot
      exact ⟨P.getNpages a - 1, node,
        Pool.mem_register_nodes.mpr (Or.inr ⟨rfl, by omega, rfl⟩), hblock⟩
    · -- the cleanup nodes are in memory the pool had before
      obtain ⟨n, hn, hinside⟩ := hok.housed_inside (hok.houses r hr ht)
      have hnlive := hok.live _ (region_mem_of_memnode hn)
      refine (hgrown.apart _ hnlive).inside ⟨?_, ?_⟩ hinside
      all_goals
        simp only [Block.region, Region.stop]
        omega

theorem pallocSlots_spec {a requested : Nat} (h : Held P contents s.mem ps pendings frees)
    (hp : p ∈ ps) (hpool : s.mem.pools p = some pool) (ha : SizeOk P a requested)
    (hwrap : a + P.memnodeHeader < P.sizeMax) (hindex : P.getNpages a - 1 ≤ maxPoolSlot)
    (hsafe : CarveSafe P pool (· ∈ pendings p ++ frees p) a) (record : Bool) :
    Yields False (pallocSlots env p a requested record s)
      (PallocPost env contents ps pendings frees s p pool a requested record) := by
  unfold pallocSlots
  rw [State.getPool_bind hpool]
  dsimp only
  split
  · rename_i fit hfit
    obtain ⟨hheld, hallocated⟩ := h.carve hp hpool ha hfit hsafe record
    refine Yields.ok ⟨?_, ?_, ?_, fun h => absurd h (by simp), fun mem hmem => ?_⟩
    · rw [State.unlock_mem, State.setPool_mem, State.lock_mem]
      exact hheld
    · simp
    · simp
    · cases hmem
      exact ⟨pool.carve P fit a requested record, by simp [Pool.carve], hallocated⟩
  · split
    · rename_i s' hnone
      obtain ⟨hfail, hlive, hpools, hrecords, hcount⟩ := memnodeAllocate_none hnone
      rw [State.lock_mem] at hlive hpools hrecords hcount
      refine Yields.ok ⟨?_, ?_, ?_, fun _ => hfail, fun mem hmem => absurd hmem (by simp)⟩
      · rw [State.unlock_mem]
        exact h.of_eq hlive hpools hrecords hcount
      · rw [State.unlock_mem, hrecords]
      · rw [State.unlock_mem, hcount]
    · rename_i node s' hsome
      obtain ⟨mem, rfl, hgrown⟩ := memnodeAllocate_some hsome
      rw [State.lock_mem] at hgrown
      obtain ⟨hheld, hallocated⟩ := h.register hp hpool ha hwrap hindex hgrown record rfl
      refine Yields.ok ⟨?_, ?_, ?_, fun h => absurd h (by simp), fun mem' hmem => ?_⟩
      · simpa only [State.unlock_mem, State.setPool_mem] using hheld
      · simp [hgrown.records]
      · simp [hgrown.recordCount]
      · cases hmem
        exact ⟨_, by simp, hallocated⟩

end Floppix.Pools
