import Floppix.System.Pool.Locks
import Floppix.System.Pool.Usage

/-! # What the blocks of the pools take

Blocks are apart from each other and from what the pools keep for themselves, and the
sizes that a pool reports differ by what was carved from its memnodes. Here the contents
of cleanup nodes are abstract: nothing that is done to its memory changes a node.
-/

namespace Floppix.Pools

open Layout LinkedList Outcome Transition

variable {P : Platform} {env : Environment P} {contents : Contents} {m : Memory} {p q : Nat}
  {pool pool' : Pool} {ps : List Nat} {pending free : List Ref} {pendings frees : Nat → List Ref}
  {thread : Nat} {w : World} {cs : List Call}

/-! ## Requests -/

/-- A size that does not wrap when it is aligned and the header of a memnode is added. -/
def SmallSize (P : Platform) (size : Nat) : Prop :=
  P.alignAllocation size + P.memnodeHeader < P.sizeMax

def CallSmall (P : Platform) (w : World) : Call → Prop
  | .use ⟨.palloc _ size, _, _⟩ => SmallSize P size
  | .use ⟨.pcalloc _ size, _, _⟩ => SmallSize P size
  | .use _ => True
  | .destroy p _ _ => w.forest.IsRoot p

theorem PoolOk.carveSafe (h : PoolOk P .abstract m p pool pending free) (a : Nat) :
    CarveSafe P pool (Listed m pool) a := by
  intro _ _ r hr ht
  rw [h.listed_eq] at hr
  have htag := (h.tags r hr).1
  omega

theorem PoolOk.pallocSafe (h : PoolOk P .abstract m p pool pending free) {size : Nat}
    (hsize : SmallSize P size) : PallocSafe P pool (Listed m pool) size := by
  refine Or.inr ⟨hsize, ?_⟩
  split
  · exact fun _ => h.carveSafe _
  · exact h.carveSafe _

/-- Nothing lies in the way of a block. -/
theorem World.Holds.callSafe (h : w.Holds P .abstract thread) {c : Call}
    (htarget : ∀ p ∈ c.target, p ∈ w.forest.members) (hsmall : CallSmall P w c) :
    CallSafe P w c := by
  obtain ⟨pendings, frees, h⟩ := h
  cases c with
  | destroy p rounds depth => exact hsmall
  | use a =>
      obtain ⟨op, rounds, depth⟩ := a
      cases op with
      | palloc p size =>
          exact fun pool hpool => (h.held.poolOk (htarget p rfl) hpool).pallocSafe hsmall
      | pcalloc p size =>
          exact fun pool hpool => (h.held.poolOk (htarget p rfl) hpool).pallocSafe hsmall
      | cleanupAdd p data id =>
          exact fun pool hpool _ => (h.held.poolOk (htarget p rfl) hpool).carveSafe _
      | _ => trivial

theorem visits_holds_abstract (hq : env.Quiet) (hcontents : env.contents = .abstract)
    (hsmall : Meets (World.step env thread) (CallSmall P) World.empty cs) :
    Visits (World.step env thread) (World.Holds P .abstract thread) World.empty cs := by
  refine visits_of_meets (fun w c w' hstep hsmall h => ?_) hsmall (holds_empty _ thread)
  have hsafe : CallSafe P w c := by
    refine h.callSafe (fun p hp => ?_) hsmall
    unfold World.step at hstep
    split at hstep
    · rename_i htarget
      exact htarget p hp
    · cases hstep
  rw [← hcontents] at h ⊢
  exact step_holds hq hstep hsafe h

/-! ## Blocks of all pools -/

theorem PoolOk.block_home (h : PoolOk P contents m p pool pending free) {b : Block}
    (hb : b ∈ pool.blocks) : ∃ r ∈ pool.regions, Region.Inside b.region r := by
  rcases mem_blocks.mp hb with ⟨n, hn, hb⟩ | hb
  · exact ⟨_, region_mem_of_memnode hn, h.block_inside hn hb⟩
  · exact ⟨_, region_mem_of_large hb, .refl _⟩

theorem Held.blocks_pairwise (h : Held P contents m ps pendings frees) (hp : p ∈ ps)
    (hpool : m.pools p = some pool) : (pool.blocks.map Block.region).Pairwise Region.Apart := by
  have hok := h.poolOk hp hpool
  have hregions : pool.regions.Pairwise Region.Apart := hok.nodup.imp_of_mem fun hr hr' hne =>
    h.regions_apart hp hp hpool hpool hr hr' (Or.inr hne)
  obtain ⟨hnodes, hlarge, hacross⟩ := List.pairwise_append.mp hregions
  rw [Pool.blocks, List.map_append, List.map_flatMap, List.pairwise_append]
  refine ⟨List.pairwise_flatMap.mpr ⟨fun n hn => (hok.carved_inside hn).2.2, ?_⟩, hlarge, ?_⟩
  · refine (List.pairwise_map.mp hnodes).imp_of_mem fun hn hn' hapart r hr r' hr' => ?_
    obtain ⟨b, hb, rfl⟩ := List.mem_map.mp hr
    obtain ⟨b', hb', rfl⟩ := List.mem_map.mp hr'
    exact hapart.inside (hok.block_inside hn hb) (hok.block_inside hn' hb')
  · intro r hr r' hr'
    obtain ⟨n, hn, hr⟩ := List.mem_flatMap.mp hr
    obtain ⟨b, hb, rfl⟩ := List.mem_map.mp hr
    exact (hacross _ (List.mem_map_of_mem hn) r' hr').inside (hok.block_inside hn hb) (.refl _)

theorem Held.blocks_apart (h : Held P contents m ps pendings frees) (hp : p ∈ ps) (hq : q ∈ ps)
    (hpq : p ≠ q) (hpool : m.pools p = some pool) (hpool' : m.pools q = some pool') {b b' : Block}
    (hb : b ∈ pool.blocks) (hb' : b' ∈ pool'.blocks) : Region.Apart b.region b'.region := by
  obtain ⟨r, hr, hin⟩ := (h.poolOk hp hpool).block_home hb
  obtain ⟨r', hr', hin'⟩ := (h.poolOk hq hpool').block_home hb'
  exact (h.regions_apart hp hq hpool hpool' hr hr' (Or.inl hpq)).inside hin hin'

/-! ## What the pools keep for themselves -/

def Pool.headers (P : Platform) (p : Nat) (pool : Pool) : List Region :=
  pool.memnodes.map (fun n => ⟨n.addr, P.memnodeHeader⟩) ++ ⟨p, P.poolHeader⟩ ::
    if P.threadSafety then [⟨pool.mutex, P.mutexHeader⟩] else []

/-- A region in the first page of a memnode, before what is carved from it. -/
structure Heads (P : Platform) (n : Memnode) (r : Region) : Prop where
  start : n.addr ≤ r.addr
  begin : r.stop ≤ n.begin
  page : r.stop ≤ n.addr + P.pageSize

theorem Held.head_apart (h : Held P contents m ps pendings frees) (hp : p ∈ ps)
    (hpool : m.pools p = some pool) {b : Block} (hb : b ∈ pool.blocks) (hq : q ∈ ps)
    (hpool' : m.pools q = some pool') {n : Memnode} (hn : n ∈ pool'.memnodes) {r : Region}
    (hr : Heads P n r) : Region.Apart b.region r := by
  have hok := h.poolOk hq hpool'
  rcases h.block_cases hp hpool hb hq hpool' hn with ⟨-, hb⟩ | hapart
  · have hlo := ((hok.carved_inside hn).2.1 b hb).2.1
    exact (Region.apart_of_le (Nat.le_trans hr.begin hlo)).symm
  · have hpage := hok.page_le hn
    have hstop := hr.page
    refine hapart.inside (.refl _) ⟨hr.start, ?_⟩
    simp only [Memnode.region, Region.stop] at hstop ⊢
    omega

theorem PoolOk.memnode_heads (h : PoolOk P contents m p pool pending free) {n : Memnode}
    (hn : n ∈ pool.memnodes) : Heads P n ⟨n.addr, P.memnodeHeader⟩ where
  start := Nat.le_refl _
  begin := (h.carved_inside hn).1
  page := by
    have hfit := P.headers_fit
    simp only [Region.stop]
    omega

theorem PoolOk.pool_heads (h : PoolOk P contents m p pool pending free) :
    ∃ n ∈ pool.memnodes, Heads P n ⟨p, P.poolHeader⟩ ∧
      (P.threadSafety = true → pool.mutex = p + P.poolHeader →
        Heads P n ⟨pool.mutex, P.mutexHeader⟩) := by
  obtain ⟨n, hn, hp, hbegin, hmutex⟩ := h.header
  have hfit := P.headers_fit
  refine ⟨n, hn, ⟨?_, hbegin, ?_⟩, fun hts hm => ⟨?_, ?_, ?_⟩⟩
  · simp only
    omega
  · simp only [Region.stop]
    omega
  · simp only
    omega
  · rw [hm]
    exact hmutex hts hm
  · simp only [Region.stop]
    omega

/-- Blocks are apart from the headers of all pools and from their mutexes. -/
theorem Inv.header_apart (h : Inv P contents thread w.state.mem w.forest pendings frees)
    (hp : w.Uses p pool) {b : Block} (hb : b ∈ pool.blocks) (hq : w.Uses q pool') {r : Region}
    (hr : r ∈ pool'.headers P q) : Region.Apart b.region r := by
  have hok := h.held.poolOk hq.1 hq.2
  rcases List.mem_append.mp hr with hr | hr
  · obtain ⟨n, hn, rfl⟩ := List.mem_map.mp hr
    exact h.held.head_apart hp.1 hp.2 hb hq.1 hq.2 hn (hok.memnode_heads hn)
  rcases List.mem_cons.mp hr with rfl | hr
  · obtain ⟨n, hn, hheads, -⟩ := hok.pool_heads
    exact h.held.head_apart hp.1 hp.2 hb hq.1 hq.2 hn hheads
  · split at hr
    · rename_i hts
      cases List.mem_singleton.mp hr
      obtain ⟨root, hroot, hmem⟩ := Forest.mem_members.mp hq.1
      have hrootMem := Forest.root_mem hroot
      obtain ⟨rootPool, hrootPool, hrootOk, -⟩ := h.held.pools root.1 hrootMem
      have hmutex := h.mutex root hroot q hmem pool' hq.2 hts
      have hmutex' := h.mutex root hroot root.1 (List.mem_cons_self ..) rootPool hrootPool hts
      obtain ⟨n, hn, -, hheads⟩ := hrootOk.pool_heads
      rw [hmutex, ← hmutex']
      exact h.held.head_apart hp.1 hp.2 hb hrootMem hrootPool hn (hheads hts hmutex')
    · cases hr

/-! ## Sizes -/

def Pool.slotNodes (pool : Pool) : List Memnode := (List.range maxPoolSlot).flatMap pool.nodes

def Pool.carvedSize (pool : Pool) : Nat :=
  ((pool.slotNodes.flatMap Memnode.carved).map Block.size).sum

theorem sumNodes_flatMap (P : Platform) (pool : Pool) (f : Nat → Memnode → Nat) :
    sumNodes P pool f =
      P.wrap ((List.range maxPoolSlot).flatMap fun i => (pool.nodes i).map (f i)).sum := by
  have hzero : P.wrap 0 = 0 := Nat.zero_mod _
  have hfold := P.foldl_wrap id
    ((List.range maxPoolSlot).flatMap fun i => (pool.nodes i).map (f i)) 0
  rw [hzero, Nat.zero_add, List.map_id, List.foldl_flatMap] at hfold
  simp only [List.foldl_map, id_eq] at hfold
  exact hfold

theorem sumNodes_eq (P : Platform) (pool : Pool) (f : Memnode → Nat) :
    sumNodes P pool (fun _ n => f n) = P.wrap (pool.slotNodes.map f).sum := by
  rw [sumNodes_flatMap, Pool.slotNodes, List.map_flatMap]

theorem NodeOk.size_eq {n : Memnode} (h : NodeOk P n) :
    n.size = n.sizeAvail + (n.carved.map Block.size).sum := by
  have hlength := h.tiles.length_eq
  have hfirst := h.first
  rw [List.map_map] at hlength
  have hsame : (Region.size ∘ Block.region) = Block.size := rfl
  rw [hsame] at hlength
  omega

theorem PoolOk.sizes (h : PoolOk P contents m p pool pending free) :
    P.sub (getSize P pool) (getFreeSize P pool) = P.wrap pool.carvedSize := by
  have hsum : (pool.slotNodes.map Memnode.size).sum =
      (pool.slotNodes.map Memnode.sizeAvail).sum + pool.carvedSize := by
    calc (pool.slotNodes.map Memnode.size).sum
        = (pool.slotNodes.map fun n => n.sizeAvail + (n.carved.map Block.size).sum).sum := by
          refine congrArg List.sum (List.map_congr_left fun n hn => ?_)
          obtain ⟨i, -, hi⟩ := List.mem_flatMap.mp hn
          exact (h.slots i n hi).2.2.size_eq
      _ = (pool.slotNodes.map Memnode.sizeAvail).sum +
            (pool.slotNodes.map fun n => (n.carved.map Block.size).sum).sum := List.sum_map_add
      _ = (pool.slotNodes.map Memnode.sizeAvail).sum + pool.carvedSize := by
          rw [Pool.carvedSize, List.map_flatMap, List.flatMap_def, List.sum_flatten, List.map_map]
          rfl
  rw [getSize, getFreeSize, sumNodes_eq, sumNodes_eq, P.sub_wrap (by omega), hsum,
    Nat.add_sub_cancel_left]

/-! ## Reachable states -/

structure Accounted (P : Platform) (w : World) : Prop where
  slots : ∀ p pool, w.Uses p pool → ∀ i, ∀ n ∈ pool.nodes i,
    n.deallocSize = (i + 1) * P.pageSize ∧ n.sizeAvail ≤ n.size ∧ n.begin ≤ n.firstAvail ∧
      n.firstAvail - n.begin = n.size - n.sizeAvail
  blocks : ∀ p pool, w.Uses p pool → ∀ b ∈ pool.blocks, P.word ∣ b.addr ∧ b.requested ≤ b.size
  pairwise : ∀ p pool, w.Uses p pool → (pool.blocks.map Block.region).Pairwise Region.Apart
  apart : ∀ p q pool pool', w.Uses p pool → w.Uses q pool' → p ≠ q →
    ∀ b ∈ pool.blocks, ∀ b' ∈ pool'.blocks, Region.Apart b.region b'.region
  headers : ∀ p q pool pool', w.Uses p pool → w.Uses q pool' →
    ∀ b ∈ pool.blocks, ∀ r ∈ pool'.headers P q, Region.Apart b.region r
  sizes : ∀ p pool, w.Uses p pool →
    P.sub (getSize P pool) (getFreeSize P pool) = P.wrap pool.carvedSize

theorem Inv.accounted (h : Inv P contents thread w.state.mem w.forest pendings frees) :
    Accounted P w where
  slots p pool hp i n hn := by
    obtain ⟨-, hsize, hok⟩ := (h.held.poolOk hp.1 hp.2).slots i n hn
    have hlength := hok.tiles.length_eq
    have havail := hok.avail
    have hfirst := hok.first
    exact ⟨hsize, havail, by omega, by omega⟩
  blocks p pool hp b hb := by
    have hok := (h.held.poolOk hp.1 hp.2).block_ok hb
    exact ⟨hok.aligned, hok.long⟩
  pairwise p pool hp := h.held.blocks_pairwise hp.1 hp.2
  apart p q pool pool' hp hq hpq b hb b' hb' :=
    h.held.blocks_apart hp.1 hq.1 hpq hp.2 hq.2 hb hb'
  headers p q pool pool' hp hq b hb r hr := h.header_apart hp hb hq hr
  sizes p pool hp := (h.held.poolOk hp.1 hp.2).sizes

/-- With cleanup nodes that nothing changes, the blocks and sizes of the pools are
accounted for in every state of a run of small requests. -/
theorem visits_accounted (hq : env.Quiet) (hcontents : env.contents = .abstract)
    (hsmall : Meets (World.step env thread) (CallSmall P) World.empty cs) :
    Visits (World.step env thread) (Accounted P) World.empty cs :=
  (visits_holds_abstract hq hcontents hsmall).mono fun _ ⟨_, _, h⟩ => h.accounted

def reused : List Call :=
  [.use ⟨.create 100 none, 0, 0⟩, .use ⟨.create 100 (some firstPool), 0, 0⟩,
    .use ⟨.palloc firstPool 100, 0, 0⟩, .use ⟨.cleanupAdd firstPool 7 1, 0, 0⟩,
    .use ⟨.clear firstPool, 1, 2⟩, .use ⟨.palloc firstPool 5000, 0, 0⟩]

theorem visits_accounted_reused :
    (run (World.step (bump lp64 .abstract) 1) World.empty reused).isSome = true ∧
      Visits (World.step (bump lp64 .abstract) 1) (Accounted lp64) World.empty reused := by
  refine ⟨rfl, visits_accounted (bump_quiet _) rfl ?_⟩
  have hsmall : SmallSize lp64 100 := by unfold SmallSize; decide
  have hlarge : SmallSize lp64 5000 := by unfold SmallSize; decide
  exact ⟨trivial, fun _ _ => ⟨trivial, fun _ _ => ⟨hsmall, fun _ _ => ⟨trivial, fun _ _ =>
    ⟨trivial, fun _ _ => ⟨hlarge, fun _ _ => trivial⟩⟩⟩⟩⟩⟩

end Floppix.Pools
