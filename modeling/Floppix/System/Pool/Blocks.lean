import Floppix.System.Pool.Frame

/-! # Blocks carved from memnodes

What the search finds, and what carving a block, registering a memnode and rewinding
do to the invariant of a pool.
-/

namespace Floppix.Pools

open Layout LinkedList

variable {P : Platform} {contents : Contents} {m m' : Memory} {p : Nat} {pool : Pool}
  {pending free : List Ref}

/-! ## The search -/

theorem fitIn_some {a : Nat} {nodes before after : List Memnode} {node : Memnode}
    (h : fitIn a nodes = some (before, node, after)) :
    nodes = before ++ node :: after ∧ a ≤ node.sizeAvail := by
  induction nodes generalizing before with
  | nil => cases h
  | cons n rest ih =>
      unfold fitIn at h
      split at h
      · rename_i hle
        cases h
        exact ⟨rfl, hle⟩
      · obtain ⟨⟨before', node', after'⟩, hfit, heq⟩ := Option.map_eq_some_iff.mp h
        cases heq
        obtain ⟨hrest, hle⟩ := ih hfit
        exact ⟨by rw [hrest, List.cons_append], hle⟩

/-- What is found lies in one of the slots and is large enough. -/
theorem findFit_some {a : Nat} {nodes : Nat → List Memnode} {slots : List Nat} {fit : Fit}
    (h : findFit a nodes slots = some fit) :
    fit.slot ∈ slots ∧ nodes fit.slot = fit.before ++ fit.node :: fit.after ∧
      a ≤ fit.node.sizeAvail := by
  induction slots with
  | nil => cases h
  | cons i slots ih =>
      unfold findFit at h
      split at h
      · rename_i before node after hfit
        cases h
        obtain ⟨hnodes, hle⟩ := fitIn_some hfit
        exact ⟨List.mem_cons_self .., hnodes, hle⟩
      · obtain ⟨hslot, hrest⟩ := ih h
        exact ⟨List.mem_cons_of_mem _ hslot, hrest⟩

/-! ## One memnode -/

structure SizeOk (P : Platform) (a requested : Nat) : Prop where
  pos : 0 < a
  aligned : P.word ∣ a
  long : requested ≤ a

theorem Platform.sizeOk {size : Nat} (h : P.alignAllocation size ≠ 0) :
    SizeOk P (P.alignAllocation size) size := by
  obtain ⟨hle, hmin, hdvd⟩ := P.alignAllocation_spec h
  exact ⟨Nat.lt_of_lt_of_le P.minAlloc_pos hmin, hdvd, hle⟩

theorem NodeOk.carve {n : Memnode} {a requested : Nat} (h : NodeOk P n)
    (hsize : n.deallocSize < P.sizeMax) (ha : SizeOk P a requested) (hfit : a ≤ n.sizeAvail)
    (record : Bool) : NodeOk P (n.carve P a requested record) := by
  have havail := h.avail
  have hfirst := h.first
  have hstop := h.stop
  have hheader := h.header
  have hsub : P.sub n.sizeAvail a = n.sizeAvail - a := P.sub_of_le hfit (by omega)
  constructor
  · exact h.header
  · exact h.stop
  · simp only [Memnode.carve, hsub]
    omega
  · simp only [Memnode.carve, hsub]
    omega
  · exact h.begin_aligned
  · exact Nat.dvd_add h.first_aligned ha.aligned
  · simpa only [Memnode.carve, List.map_append, List.map_cons, List.map_nil, Block.region] using
      h.tiles.push a
  · intro b hb
    rcases List.mem_append.mp hb with hb | hb
    · exact h.blocks b hb
    · cases List.mem_singleton.mp hb
      exact ⟨h.first_aligned, ha.long, ha.pos⟩

theorem NodeOk.rewind {n : Memnode} (h : NodeOk P n) : NodeOk P n.rewind where
  header := h.header
  stop := h.stop
  avail := Nat.le_refl _
  first := rfl
  begin_aligned := h.begin_aligned
  first_aligned := h.begin_aligned
  tiles := tiles_nil _
  blocks := by simp [Memnode.rewind]

def newMemnode (P : Platform) (mem size : Nat) : Memnode :=
  { addr := mem
    begin := mem + P.memnodeHeader
    firstAvail := mem + P.memnodeHeader
    size := P.sub size P.memnodeHeader
    sizeAvail := P.sub size P.memnodeHeader
    deallocSize := size
    carved := [] }

theorem NodeOk.new {mem size : Nat} (hmem : P.word ∣ mem) (hle : P.memnodeHeader ≤ size)
    (hsize : size < P.sizeMax) : NodeOk P (newMemnode P mem size) where
  header := Nat.le_refl _
  stop := by
    simp only [newMemnode, P.sub_of_le hle hsize]
    omega
  avail := Nat.le_refl _
  first := rfl
  begin_aligned := Nat.dvd_add hmem (P.word_dvd_align _)
  first_aligned := Nat.dvd_add hmem (P.word_dvd_align _)
  tiles := tiles_nil _
  blocks := by simp [newMemnode]

theorem PoolOk.carved_inside (h : PoolOk P contents m p pool pending free) {n : Memnode}
    (hn : n ∈ pool.memnodes) :
    n.addr + P.memnodeHeader ≤ n.begin ∧
      (∀ b ∈ n.carved, BlockOk P b ∧ n.begin ≤ b.addr ∧ b.region.stop ≤ n.addr + n.deallocSize) ∧
      (n.carved.map Block.region).Pairwise Region.Apart := by
  rcases mem_memnodes.mp hn with ⟨i, -, hi⟩ | hs
  · obtain ⟨-, -, hok⟩ := h.slots i n hi
    refine ⟨hok.header, fun b hb => ⟨hok.blocks b hb, ?_⟩, hok.tiles.pairwise⟩
    have hin := hok.tiles.inside (List.mem_map_of_mem hb)
    have hstop := hok.stop
    have hfirst := hok.first
    simp only [Block.region, Region.stop] at hin ⊢
    omega
  · obtain ⟨-, hok⟩ := h.strays n hs
    exact ⟨hok.header, fun b hb => ⟨hok.blocks b hb, hok.inside b hb⟩, hok.apart⟩

/-! ## Carving from a memnode of the pool -/

def Pool.carve (P : Platform) (pool : Pool) (fit : Fit) (a requested : Nat) (record : Bool) :
    Pool :=
  let list := fit.before ++ fit.node.carve P a requested record :: fit.after
  { pool with nodes := Function.update pool.nodes fit.slot list }

theorem regions_of_nodes {pool pool' : Pool}
    (hnodes : ∀ i, (pool'.nodes i).map Memnode.region = (pool.nodes i).map Memnode.region)
    (hstray : pool'.stray.map Memnode.region = pool.stray.map Memnode.region)
    (hlarge : pool'.large = pool.large) : pool'.regions = pool.regions := by
  simp only [Pool.regions, Pool.memnodes, List.map_append, List.map_flatMap, hnodes, hstray,
    hlarge]

theorem Pool.carve_regions {fit : Fit} {a requested : Nat} {record : Bool}
    (hfit : pool.nodes fit.slot = fit.before ++ fit.node :: fit.after) :
    (pool.carve P fit a requested record).regions = pool.regions := by
  refine regions_of_nodes (fun i => ?_) rfl rfl
  by_cases hi : i = fit.slot
  · subst hi
    simp only [Pool.carve, Function.update_self, hfit, List.map_append, List.map_cons]
    rfl
  · simp only [Pool.carve, Function.update_of_ne hi]

theorem Pool.mem_carve (P : Platform) (a requested : Nat) (record : Bool) {fit : Fit}
    (hfit : pool.nodes fit.slot = fit.before ++ fit.node :: fit.after) {i : Nat} {n : Memnode}
    (hn : n ∈ pool.nodes i) :
    n ∈ (pool.carve P fit a requested record).nodes i ∨ (i = fit.slot ∧ n = fit.node) := by
  by_cases hi : i = fit.slot
  · subst hi
    have hlist : (pool.carve P fit a requested record).nodes fit.slot =
        fit.before ++ fit.node.carve P a requested record :: fit.after := Function.update_self ..
    rw [hfit] at hn
    rw [hlist]
    rcases List.mem_append.mp hn with hn | hn
    · exact Or.inl (List.mem_append_left _ hn)
    · rcases List.mem_cons.mp hn with hn | hn
      · exact Or.inr ⟨rfl, hn⟩
      · exact Or.inl (List.mem_append_right _ (List.mem_cons_of_mem _ hn))
  · simp only [Pool.carve, Function.update_of_ne hi]
    exact Or.inl hn

theorem Pool.carve_mem {fit : Fit} {a requested : Nat} {record : Bool} :
    fit.node.carve P a requested record ∈ (pool.carve P fit a requested record).nodes fit.slot := by
  simp [Pool.carve]

theorem Pool.of_mem_carve {fit : Fit} {a requested : Nat} {record : Bool}
    (hfit : pool.nodes fit.slot = fit.before ++ fit.node :: fit.after) {i : Nat} {n : Memnode}
    (hn : n ∈ (pool.carve P fit a requested record).nodes i) :
    n ∈ pool.nodes i ∨ (i = fit.slot ∧ n = fit.node.carve P a requested record) := by
  by_cases hi : i = fit.slot
  · subst hi
    simp only [Pool.carve, Function.update_self] at hn
    rw [hfit]
    rcases List.mem_append.mp hn with hn | hn
    · exact Or.inl (List.mem_append_left _ hn)
    · rcases List.mem_cons.mp hn with hn | hn
      · exact Or.inr ⟨rfl, hn⟩
      · exact Or.inl (List.mem_append_right _ (List.mem_cons_of_mem _ hn))
  · simp only [Pool.carve, Function.update_of_ne hi] at hn
    exact Or.inl hn

theorem PoolOk.carve (h : PoolOk P contents m p pool pending free) {fit : Fit}
    {a requested : Nat} (hfit : pool.nodes fit.slot = fit.before ++ fit.node :: fit.after)
    (ha : SizeOk P a requested) (havail : a ≤ fit.node.sizeAvail) (record : Bool)
    (hclear : ∀ r ∈ pending ++ free, r.tag = 0 →
      Region.Apart ⟨fit.node.firstAvail, a⟩ (recordRegion P r)) :
    PoolOk P contents m p (pool.carve P fit a requested record) pending free := by
  have hnode : fit.node ∈ pool.nodes fit.slot := by simp [hfit]
  obtain ⟨hslot, hdealloc, hnodeOk⟩ := h.slots _ _ hnode
  have hlt : fit.node.deallocSize < P.sizeMax := by
    rw [hdealloc]
    exact P.page_lt (by simp only [maxPoolSlot] at *; omega)
  constructor
  · intro i n hn
    rcases Pool.of_mem_carve hfit hn with hn | ⟨rfl, rfl⟩
    · exact h.slots i n hn
    · exact ⟨hslot, hdealloc, hnodeOk.carve hlt ha havail record⟩
  · exact h.strays
  · exact h.large
  · rw [Pool.carve_regions hfit]
    exact h.live
  · rw [Pool.carve_regions hfit]
    exact h.nodup
  · obtain ⟨n, hn, hp⟩ := h.header
    rcases mem_memnodes.mp hn with ⟨i, hi, hn⟩ | hn
    · rcases Pool.mem_carve P a requested record hfit hn with hn | ⟨rfl, rfl⟩
      · exact ⟨n, mem_memnodes_of_slot hi hn, hp⟩
      · exact ⟨_, mem_memnodes_of_slot hi Pool.carve_mem, hp⟩
    · exact ⟨n, mem_memnodes.mpr (Or.inr hn), hp⟩
  · exact h.pendingChain
  · exact h.freeChain
  · exact h.records
  · exact h.tags
  · intro r hr ht
    obtain ⟨i, n, hn, hin⟩ := h.houses r hr ht
    rcases Pool.mem_carve P a requested record hfit hn with hn | ⟨rfl, rfl⟩
    · exact ⟨i, n, hn, hin⟩
    · refine ⟨_, _, Pool.carve_mem, ?_⟩
      rcases hin with ⟨b, hb, hrest⟩ | ⟨hlo, hhi⟩
      · exact Or.inl ⟨b, List.mem_append_left _ hb, hrest⟩
      · refine Or.inr ⟨?_, hhi⟩
        have hapart := hclear r hr ht
        have hpos := P.cleanup_pos
        simp only [Region.Apart, Region.stop, recordRegion] at hapart
        simp only [Memnode.carve]
        omega

/-! ## Blocks and cleanup nodes -/

/-- The blocks handed out since the last clear of the pool, those for cleanup nodes
included. -/
def Pool.blocks (pool : Pool) : List Block := pool.memnodes.flatMap Memnode.carved ++ pool.large

theorem mem_blocks {b : Block} :
    b ∈ pool.blocks ↔ (∃ n ∈ pool.memnodes, b ∈ n.carved) ∨ b ∈ pool.large := by
  simp [Pool.blocks]

theorem PoolOk.block_inside (h : PoolOk P contents m p pool pending free) {n : Memnode}
    (hn : n ∈ pool.memnodes) {b : Block} (hb : b ∈ n.carved) :
    Region.Inside b.region n.region := by
  obtain ⟨hheader, hblocks, -⟩ := h.carved_inside hn
  obtain ⟨-, hlo, hhi⟩ := hblocks b hb
  refine ⟨?_, hhi⟩
  simp only [Memnode.region, Block.region]
  omega

/-- A block is carved from the memnode, or apart from it. -/
theorem Held.block_cases {ps : List Nat} {pendings frees : Nat → List Ref}
    (h : Held P contents m ps pendings frees) (hp : p ∈ ps) (hpool : m.pools p = some pool)
    {b : Block} (hb : b ∈ pool.blocks) {q : Nat} (hq : q ∈ ps) {poolq : Pool}
    (hpoolq : m.pools q = some poolq) {n : Memnode} (hn : n ∈ poolq.memnodes) :
    (p = q ∧ b ∈ n.carved) ∨ Region.Apart b.region n.region := by
  have hok := h.poolOk hp hpool
  have hreg := region_mem_of_memnode hn
  rcases mem_blocks.mp hb with ⟨n₀, hn₀, hb⟩ | hb
  · by_cases hsame : p = q ∧ n₀ = n
    · exact Or.inl ⟨hsame.1, hsame.2 ▸ hb⟩
    · have hne : p ≠ q ∨ n₀.region ≠ n.region := by
        by_cases hpq : p = q
        · subst hpq
          rw [hpool] at hpoolq
          cases hpoolq
          exact Or.inr fun heq => hsame ⟨rfl, hok.memnode_inj hn₀ hn heq⟩
        · exact Or.inl hpq
      have hapart := h.regions_apart hp hq hpool hpoolq (region_mem_of_memnode hn₀) hreg hne
      exact Or.inr (hapart.inside (hok.block_inside hn₀ hb) (.refl _))
  · have hne : p ≠ q ∨ b.region ≠ n.region := by
      by_cases hpq : p = q
      · subst hpq
        rw [hpool] at hpoolq
        cases hpoolq
        apply Or.inr
        intro heq
        exact (List.nodup_append.mp hok.nodup).2.2 _ (List.mem_map_of_mem hn) _
          (List.mem_map_of_mem hb) heq.symm
      · exact Or.inl hpq
    exact Or.inr (h.regions_apart hp hq hpool hpoolq (region_mem_of_large hb) hreg hne)

theorem Held.block_apart {ps : List Nat} {pendings frees : Nat → List Ref}
    (h : Held P contents m ps pendings frees) (hp : p ∈ ps) (hpool : m.pools p = some pool)
    {b : Block} (hb : b ∈ pool.blocks) (huser : b.record = false) {q : Nat} (hq : q ∈ ps) {r : Ref}
    (hr : r ∈ pendings q ++ frees q) (ht : r.tag = 0) :
    Region.Apart b.region (recordRegion P r) := by
  obtain ⟨poolq, hpoolq, hokq, -⟩ := h.pools q hq
  obtain ⟨i, n, hn, hin⟩ := hokq.houses r hr ht
  obtain ⟨hi, -, hnok⟩ := hokq.slots i n hn
  rcases h.block_cases hp hpool hb hq hpoolq (mem_memnodes_of_slot hi hn) with ⟨-, hb⟩ | hapart
  · -- both are in one memnode: the node has its own block, or lies behind all blocks
    have htile := hnok.tiles.inside (List.mem_map_of_mem hb)
    rcases hin with ⟨b', hbm, hrecord, haddr, hsize⟩ | ⟨hlo, -⟩
    · have hne : b ≠ b' := fun heq => by
        rw [heq, hrecord] at huser
        cases huser
      have hapart := apart_of_pairwise hnok.tiles.pairwise hb hbm hne
      refine hapart.inside (.refl _) ⟨?_, ?_⟩
      · exact Nat.le_of_eq haddr
      · simp only [Region.stop, recordRegion, Block.region]
        omega
    · exact Region.apart_of_le (Nat.le_trans htile.2 hlo)
  · exact hapart.inside (.refl _) (hokq.house_inside hn hin)

/-! ## A new memnode -/

theorem flatMap_update_perm {l : List Nat} {f : Nat → List Memnode} {i : Nat} {n : Memnode}
    (hl : l.Nodup) (hi : i ∈ l) :
    (l.flatMap (Function.update f i (n :: f i))).Perm (n :: l.flatMap f) := by
  induction l with
  | nil => cases hi
  | cons j l ih =>
      obtain ⟨hj, hl⟩ := List.nodup_cons.mp hl
      by_cases hij : j = i
      · subst hij
        have hrest : l.flatMap (Function.update f j (n :: f j)) = l.flatMap f :=
          List.flatMap_congr fun k hk =>
            Function.update_of_ne (fun heq : k = j => hj (heq ▸ hk)) _ _
        rw [List.flatMap_cons, List.flatMap_cons, Function.update_self, hrest]
        exact .refl _
      · have hi' : i ∈ l := (List.mem_cons.mp hi).resolve_left (Ne.symm hij)
        rw [List.flatMap_cons, List.flatMap_cons, Function.update_of_ne hij]
        exact ((ih hl hi').append_left _).trans List.perm_middle

theorem Pool.mem_register_nodes {index i : Nat} {node n : Memnode} :
    n ∈ (pool.register index node).nodes i ↔
      n ∈ pool.nodes i ∨ i = index ∧ index ≠ maxPoolSlot ∧ n = node := by
  unfold Pool.register
  by_cases hindex : index = maxPoolSlot
  · simp [hindex]
  · by_cases hi : i = index
    · subst hi
      simp [hindex, or_comm]
    · simp [hindex, hi]

theorem Pool.mem_register_stray {index : Nat} {node n : Memnode} :
    n ∈ (pool.register index node).stray ↔ n ∈ pool.stray ∨ index = maxPoolSlot ∧ n = node := by
  unfold Pool.register
  by_cases hindex : index = maxPoolSlot
  · simp [hindex, or_comm]
  · simp [hindex]

@[simp] theorem Pool.register_mutex (pool : Pool) (index : Nat) (node : Memnode) :
    (pool.register index node).mutex = pool.mutex := by
  unfold Pool.register
  split <;> rfl

@[simp] theorem Pool.register_cleanups (pool : Pool) (index : Nat) (node : Memnode) :
    (pool.register index node).cleanups = pool.cleanups := by
  unfold Pool.register
  split <;> rfl

@[simp] theorem Pool.register_freeCleanups (pool : Pool) (index : Nat) (node : Memnode) :
    (pool.register index node).freeCleanups = pool.freeCleanups := by
  unfold Pool.register
  split <;> rfl

@[simp] theorem Pool.register_large (pool : Pool) (index : Nat) (node : Memnode) :
    (pool.register index node).large = pool.large := by
  unfold Pool.register
  split <;> rfl

theorem Pool.register_memnodes (pool : Pool) {index : Nat} (node : Memnode)
    (hindex : index ≤ maxPoolSlot) :
    (pool.register index node).memnodes.Perm (node :: pool.memnodes) := by
  unfold Pool.register
  split
  · exact List.perm_middle
  · have hlt : index ∈ List.range maxPoolSlot := List.mem_range.mpr (by omega)
    exact (flatMap_update_perm List.nodup_range hlt).append_right _

theorem Pool.register_regions (pool : Pool) {index : Nat} (node : Memnode)
    (hindex : index ≤ maxPoolSlot) :
    (pool.register index node).regions.Perm (node.region :: pool.regions) := by
  have hmem := pool.register_memnodes node hindex
  rw [Pool.regions, Pool.register_large]
  exact (hmem.map Memnode.region).append_right _

theorem PoolOk.grow_regions (h : PoolOk P contents m p pool pending free) {pool' : Pool}
    {r : Region} (hperm : pool'.regions.Perm (r :: pool.regions)) (hr : r ∈ m'.live)
    (hnew : r ∉ m.live) (hlive : ∀ q ∈ m.live, q ∈ m'.live) :
    (∀ q ∈ pool'.regions, q ∈ m'.live) ∧ pool'.regions.Nodup := by
  constructor
  · intro q hq
    rcases List.mem_cons.mp (hperm.mem_iff.mp hq) with rfl | hq
    · exact hr
    · exact hlive q (h.live q hq)
  · exact hperm.nodup_iff.mpr
      (List.nodup_cons.mpr ⟨fun hmem => hnew (h.live r hmem), h.nodup⟩)

/-- A new memnode, with one block carved from it at most. -/
theorem PoolOk.register (h : PoolOk P contents m p pool pending free) {index : Nat}
    {node : Memnode} (hindex : index ≤ maxPoolSlot)
    (hdealloc : node.deallocSize = (index + 1) * P.pageSize) (hnode : NodeOk P node)
    (hr : node.region ∈ m'.live) (hnew : node.region ∉ m.live)
    (hlive : ∀ q ∈ m.live, q ∈ m'.live) (hrecords : m'.records = m.records)
    (hcount : m'.recordCount = m.recordCount) :
    PoolOk P contents m' p (pool.register index node) pending free := by
  obtain ⟨hlive', hnodup'⟩ :=
    h.grow_regions (pool.register_regions node hindex) hr hnew hlive
  have hmem : ∀ n ∈ pool.memnodes, n ∈ (pool.register index node).memnodes := fun n hn =>
    (pool.register_memnodes node hindex).mem_iff.mpr (List.mem_cons_of_mem node hn)
  have hslots : ∀ i, ∀ n ∈ (pool.register index node).nodes i,
      i < maxPoolSlot ∧ n.deallocSize = (i + 1) * P.pageSize ∧ NodeOk P n := by
    intro i n hn
    rcases Pool.mem_register_nodes.mp hn with hn | ⟨rfl, hne, rfl⟩
    · exact h.slots i n hn
    · exact ⟨by omega, hdealloc, hnode⟩
  have hstrays : ∀ n ∈ (pool.register index node).stray,
      n.deallocSize = (maxPoolSlot + 1) * P.pageSize ∧ StrayOk P n := by
    intro n hn
    rcases Pool.mem_register_stray.mp hn with hn | ⟨rfl, rfl⟩
    · exact h.strays n hn
    · refine ⟨hdealloc, hnode.header, fun b hb => ?_, hnode.tiles.pairwise, hnode.blocks⟩
      have hin := hnode.tiles.inside (List.mem_map_of_mem hb)
      have hstop := hnode.stop
      have hfirst := hnode.first
      simp only [Block.region, Region.stop] at hin ⊢
      omega
  exact
    { slots := hslots
      strays := hstrays
      large := by rw [Pool.register_large]; exact h.large
      live := hlive'
      nodup := hnodup'
      header := by
        obtain ⟨n, hn, hp⟩ := h.header
        exact ⟨n, hmem n hn, by rw [Pool.register_mutex]; exact hp⟩
      pendingChain := by rw [hrecords, Pool.register_cleanups]; exact h.pendingChain
      freeChain := by rw [hrecords, Pool.register_freeCleanups]; exact h.freeChain
      records := h.records
      tags := by rw [hcount]; exact h.tags
      houses := fun r hr ht => by
        obtain ⟨i, n, hn, hin⟩ := h.houses r hr ht
        exact ⟨i, n, Pool.mem_register_nodes.mpr (Or.inl hn), hin⟩ }

theorem PoolOk.handOut (h : PoolOk P contents m p pool pending free) {b : Block}
    (hb : LargeOk P b) (hr : b.region ∈ m'.live) (hnew : b.region ∉ m.live)
    (hlive : ∀ q ∈ m.live, q ∈ m'.live) (hrecords : m'.records = m.records)
    (hcount : m'.recordCount = m.recordCount) :
    PoolOk P contents m' p { pool with large := b :: pool.large } pending free := by
  have hperm : ({ pool with large := b :: pool.large } : Pool).regions.Perm
      (b.region :: pool.regions) := List.perm_middle
  obtain ⟨hlive', hnodup'⟩ := h.grow_regions hperm hr hnew hlive
  exact
    { slots := h.slots
      strays := h.strays
      large := List.forall_mem_cons.mpr ⟨hb, h.large⟩
      live := hlive'
      nodup := hnodup'
      header := h.header
      pendingChain := by rw [hrecords]; exact h.pendingChain
      freeChain := by rw [hrecords]; exact h.freeChain
      records := h.records
      tags := by rw [hcount]; exact h.tags
      houses := h.houses }

/-! ## Rewinding -/

theorem Pool.rewind_memnodes {pool : Pool} {n : Memnode} (hn : n ∈ pool.memnodes) :
    ∃ n' ∈ pool.rewind.memnodes, n'.addr = n.addr ∧ n'.begin = n.begin := by
  rcases mem_memnodes.mp hn with ⟨i, hi, hn⟩ | hn
  · exact ⟨n.rewind, mem_memnodes.mpr (Or.inl ⟨i, hi, List.mem_map_of_mem hn⟩), rfl, rfl⟩
  · exact ⟨_, mem_memnodes.mpr (Or.inr (List.mem_map_of_mem hn)), rfl, rfl⟩

theorem Pool.rewind_regions (pool : Pool) :
    pool.rewind.regions = pool.memnodes.map Memnode.region := by
  simp only [Pool.regions, Pool.memnodes, Pool.rewind, List.map_append, List.map_flatMap,
    List.map_map, List.map_nil, List.append_nil]
  rfl

/-- A cleared pool: its cleanup nodes now lie behind what is used. -/
theorem PoolOk.rewind (h : PoolOk P contents m p pool pending free) :
    PoolOk P contents m p pool.rewind pending free := by
  have hsub : ∀ r ∈ pool.rewind.regions, r ∈ pool.regions := by
    rw [pool.rewind_regions]
    exact fun r hr => List.mem_append_left _ hr
  constructor
  · intro i n hn
    obtain ⟨n', hn', rfl⟩ := List.mem_map.mp hn
    obtain ⟨hi, hdealloc, hok⟩ := h.slots i n' hn'
    exact ⟨hi, hdealloc, hok.rewind⟩
  · intro n hn
    obtain ⟨n', hn', rfl⟩ := List.mem_map.mp hn
    obtain ⟨hdealloc, hok⟩ := h.strays n' hn'
    exact ⟨hdealloc, hok.header, by simp, List.Pairwise.nil, by simp⟩
  · simp [Pool.rewind]
  · exact fun r hr => h.live r (hsub r hr)
  · rw [pool.rewind_regions]
    exact (List.nodup_append.mp h.nodup).1
  · obtain ⟨n, hn, hp, hpool, hmutex⟩ := h.header
    obtain ⟨n', hn', haddr, hbegin⟩ := Pool.rewind_memnodes hn
    exact ⟨n', hn', haddr ▸ hp, hbegin ▸ hpool, hbegin ▸ hmutex⟩
  · exact h.pendingChain
  · exact h.freeChain
  · exact h.records
  · exact h.tags
  · intro r hr ht
    obtain ⟨i, n, hn, hin⟩ := h.houses r hr ht
    obtain ⟨-, -, hok⟩ := h.slots i n hn
    refine ⟨i, n.rewind, List.mem_map_of_mem hn, Or.inr ?_⟩
    have hfirst := hok.first
    have hlen := hok.tiles.length_eq
    rcases hin with ⟨b, hb, -, haddr, hsize⟩ | ⟨hlo, hhi⟩
    · have htile := hok.tiles.inside (List.mem_map_of_mem hb)
      simp only [Behind, Memnode.rewind, Region.stop, Block.region] at htile ⊢
      omega
    · simp only [Behind, Memnode.rewind]
      omega

end Floppix.Pools
