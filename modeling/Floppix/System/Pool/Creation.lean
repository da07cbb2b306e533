import Floppix.System.Pool.Joining

/-! # Creating a pool keeps the invariant

The new pool lies in its first memnode, in memory that nobody had. With a parent it
becomes the first child in the tree of the parent.
-/

namespace Floppix.Pools

open Layout LinkedList Outcome Kinship

variable {P : Platform} {env : Environment P} {contents : Contents} {m m' : Memory} {p q : Nat}
  {pool pool' : Pool} {pending free : List Ref} {ps : List Nat} {pendings frees : Nat → List Ref}
  {s s' : State}

/-! ## The first memnode -/

theorem NodeOk.unused {n : Memnode} (hheader : n.addr + P.memnodeHeader ≤ n.begin)
    (hstop : n.begin + n.size = n.addr + n.deallocSize) (haligned : P.word ∣ n.begin)
    (hcarved : n.carved = []) :
    NodeOk P { n with firstAvail := n.begin, sizeAvail := n.size } where
  header := hheader
  stop := hstop
  avail := Nat.le_refl _
  first := rfl
  begin_aligned := haligned
  first_aligned := haligned
  tiles := by
    rw [hcarved]
    exact tiles_nil _
  blocks := by simp [hcarved]

/-- A memnode from the system with its first `room` bytes taken for a pool. -/
structure HomeNode (P : Platform) (mem npages room : Nat) (n : Memnode) : Prop where
  addr : n.addr = mem
  dealloc : n.deallocSize = npages * P.pageSize
  begin : n.begin = mem + P.memnodeHeader + room
  stop : n.begin + n.size = mem + npages * P.pageSize
  carved : n.carved = []

theorem HomeNode.nodeOk {mem npages room : Nat} {n : Memnode} (h : HomeNode P mem npages room n)
    (hmem : P.word ∣ mem) (hroom : P.word ∣ room) :
    NodeOk P { n with firstAvail := n.begin, sizeAvail := n.size } := by
  refine NodeOk.unused ?_ ?_ ?_ h.carved
  · rw [h.addr, h.begin]
    omega
  · rw [h.stop, h.addr, h.dealloc]
  · rw [h.begin]
    exact Nat.dvd_add (Nat.dvd_add hmem (P.word_dvd_align _)) hroom

theorem HomeNode.shrink {mem npages room k : Nat} {n : Memnode} (h : HomeNode P mem npages room n)
    (hpages : npages ≤ maxPoolSlot + 1)
    (hk : P.memnodeHeader + room + k ≤ npages * P.pageSize) :
    HomeNode P mem npages (room + k)
      { n with begin := n.begin + k, size := P.sub n.size k } := by
  have hbegin := h.begin
  have hstop := h.stop
  have hlt : npages * P.pageSize < P.sizeMax := P.page_lt hpages
  have hsub : P.sub n.size k = n.size - k := P.sub_of_le (by omega) (by omega)
  refine ⟨h.addr, h.dealloc, ?_, ?_, h.carved⟩
  · simp only [hbegin]
    omega
  · simp only [hsub]
    omega

def mutexRoom (P : Platform) (parent : Option Nat) : Nat :=
  if P.threadSafety ∧ parent = none then P.mutexHeader else 0

theorem mutexRoom_dvd (parent : Option Nat) : P.word ∣ mutexRoom P parent := by
  unfold mutexRoom
  split
  · exact P.word_dvd_align _
  · exact Nat.dvd_zero _

/-- Where the mutex of a new pool is. -/
def MutexAt (P : Platform) (m : Memory) (newPool : Nat) (parent : Option Nat) (mutex : Nat) :
    Prop :=
  P.threadSafety = true →
    match parent with
    | none => mutex = newPool + P.poolHeader
    | some q => ∃ pool, m.pools q = some pool ∧ mutex = pool.mutex

theorem embedMutex_spec {mem npages : Nat} {parent : Option Nat} {node : Memnode}
    (hnode : HomeNode P mem npages P.poolHeader node) (hpos : 0 < npages)
    (hpages : npages ≤ maxPoolSlot + 1)
    (hparent : ∀ q, parent = some q → ∃ pool, s.mem.pools q = some pool) :
    Yields False (embedMutex env parent node s) fun made => match made with
      | .error _ => ¬ env.Succeeds
      | .ok (mutex, node') =>
          HomeNode P mem npages (P.poolHeader + mutexRoom P parent) node' ∧
            MutexAt P s.mem (mem + P.memnodeHeader) parent mutex := by
  unfold embedMutex mutexRoom MutexAt
  cases hts : P.threadSafety with
  | false =>
      refine Yields.ok ⟨?_, fun h => (nomatch h)⟩
      simpa using hnode
  | true =>
      cases parent with
      | some q =>
          obtain ⟨pool, hpool⟩ := hparent q rfl
          rw [if_pos rfl]
          change Yields False
            (s.getPool q >>= fun pool => Except.ok (Except.ok (pool.mutex, node))) _
          rw [State.getPool_bind hpool]
          refine Yields.ok ⟨?_, fun _ => ⟨pool, hpool, rfl⟩⟩
          simpa using hnode
      | none =>
          simp only [if_true, true_and]
          split
          · rename_i hfailed
            exact Yields.ok fun hsucceeds => hfailed (hsucceeds.2 _)
          · have hfit := P.headers_fit
            have hmul : P.pageSize ≤ npages * P.pageSize := Nat.le_mul_of_pos_left _ hpos
            refine Yields.ok ⟨hnode.shrink hpages (by omega), fun _ => ?_⟩
            rw [hnode.begin]

/-! ## The new pool -/

structure Bare (pool : Pool) : Prop where
  nodes : pool.nodes = fun _ => []
  stray : pool.stray = []
  large : pool.large = []
  cleanups : pool.cleanups = none
  freeCleanups : pool.freeCleanups = none

theorem Bare.regions (h : Bare pool) : pool.regions = [] := by
  simp [Pool.regions, Pool.memnodes, h.nodes, h.stray, h.large]

theorem PoolOk.created {mem npages room : Nat} {n : Memnode} (hbare : Bare pool)
    (hnode : HomeNode P mem npages room n) (hmem : P.word ∣ mem) (hroom : P.word ∣ room)
    (hheader : P.poolHeader ≤ room) (hpos : 0 < npages) (hindex : npages - 1 ≤ maxPoolSlot)
    (hlive : (⟨mem, npages * P.pageSize⟩ : Region) ∈ m.live)
    (hmutex : P.threadSafety = true → pool.mutex = mem + P.memnodeHeader + P.poolHeader →
      P.poolHeader + P.mutexHeader ≤ room) :
    PoolOk P contents m (mem + P.memnodeHeader)
      (pool.register (npages - 1) { n with firstAvail := n.begin, sizeAvail := n.size }) [] [] := by
  have hok := hnode.nodeOk hmem hroom
  have hdealloc : n.deallocSize = (npages - 1 + 1) * P.pageSize := by
    rw [hnode.dealloc, Nat.sub_add_cancel hpos]
  have hperm := pool.register_regions { n with firstAvail := n.begin, sizeAvail := n.size } hindex
  rw [hbare.regions] at hperm
  have hregion : ({ n with firstAvail := n.begin, sizeAvail := n.size } : Memnode).region =
      ⟨mem, npages * P.pageSize⟩ := by
    simp only [Memnode.region, hnode.addr, hnode.dealloc]
  have hbegin := hnode.begin
  have hhome : mem + P.memnodeHeader = n.addr + P.memnodeHeader ∧
      mem + P.memnodeHeader + P.poolHeader ≤ n.begin ∧
      (P.threadSafety = true → pool.mutex = mem + P.memnodeHeader + P.poolHeader →
        mem + P.memnodeHeader + P.poolHeader + P.mutexHeader ≤ n.begin) := by
    refine ⟨by rw [hnode.addr], by omega, fun hts hm => ?_⟩
    have := hmutex hts hm
    omega
  have hslots : ∀ i, ∀ x ∈ (pool.register (npages - 1)
      { n with firstAvail := n.begin, sizeAvail := n.size }).nodes i,
      i < maxPoolSlot ∧ x.deallocSize = (i + 1) * P.pageSize ∧ NodeOk P x := by
    intro i x hx
    rcases Pool.mem_register_nodes.mp hx with hx | ⟨rfl, hne, rfl⟩
    · simp [hbare.nodes] at hx
    · exact ⟨by omega, hdealloc, hok⟩
  have hstrays : ∀ x ∈ (pool.register (npages - 1)
      { n with firstAvail := n.begin, sizeAvail := n.size }).stray,
      x.deallocSize = (maxPoolSlot + 1) * P.pageSize ∧ StrayOk P x := by
    intro x hx
    rcases Pool.mem_register_stray.mp hx with hx | ⟨heq, rfl⟩
    · simp [hbare.stray] at hx
    · exact ⟨heq ▸ hdealloc, hok.header, by simp [hnode.carved], by simp [hnode.carved],
        by simp [hnode.carved]⟩
  have hmem' : { n with firstAvail := n.begin, sizeAvail := n.size } ∈ (pool.register (npages - 1)
      { n with firstAvail := n.begin, sizeAvail := n.size }).memnodes :=
    (pool.register_memnodes _ hindex).mem_iff.mpr (List.mem_cons_self ..)
  exact
    { slots := hslots
      strays := hstrays
      large := by simp [hbare.large]
      live := fun r hr => by
        have hr' := hperm.mem_iff.mp hr
        rw [List.mem_singleton.mp hr', hregion]
        exact hlive
      nodup := hperm.nodup_iff.mpr (List.nodup_singleton _)
      header := ⟨_, hmem', by rw [Pool.register_mutex]; exact hhome⟩
      pendingChain := by rw [Pool.register_cleanups, hbare.cleanups]; exact chain_nil
      freeChain := by rw [Pool.register_freeCleanups, hbare.freeCleanups]; exact chain_nil
      records := List.Pairwise.nil
      tags := by simp
      houses := by simp }

/-! ## `fpx_pool_create` -/

theorem addChild_ok {new : Nat} {newPool old : Pool} (hnew : s.mem.pools new = some newPool)
    (hold : s.mem.pools q = some old) (hne : q ≠ new) :
    ∃ s', addChild q new s = .ok s' ∧
      s'.mem = (s.mem.setPool q { old with child := some new }).setPool new
        { newPool with parent := some q, brother := old.child } := by
  unfold addChild
  rw [State.getPool_bind hnew]
  have hold' : (s.setPool new { newPool with parent := some q }).mem.pools q = some old := by
    rwa [State.setPool_mem, Memory.setPool_of_ne _ _ hne]
  rw [State.getPool_bind hold']
  have hnew' : ((s.setPool new { newPool with parent := some q }).setPool q
      { old with child := some new }).mem.pools new =
        some { newPool with parent := some q } := by
    rw [State.setPool_mem, Memory.setPool_of_ne _ _ hne.symm, State.setPool_mem,
      Memory.setPool_self]
  rw [State.getPool_bind hnew']
  refine ⟨_, rfl, ?_⟩
  simp only [State.setPool_mem]
  rw [Memory.setPool_comm _ _ _ hne.symm, Memory.setPool_setPool]

theorem HomeNode.new {mem npages : Nat} (hpos : 0 < npages) (hpages : npages ≤ maxPoolSlot + 1) :
    HomeNode P mem npages 0 (newMemnode P mem (npages * P.pageSize)) := by
  have hfits := P.headers_fit
  have hmul : P.pageSize ≤ npages * P.pageSize := Nat.le_mul_of_pos_left _ hpos
  have hlt : npages * P.pageSize < P.sizeMax := P.page_lt hpages
  have hsub : P.sub (npages * P.pageSize) P.memnodeHeader = npages * P.pageSize - P.memnodeHeader :=
    P.sub_of_le (by omega) hlt
  refine ⟨rfl, rfl, rfl, ?_, rfl⟩
  simp only [newMemnode, hsub]
  omega

theorem Inv.insert_new {thread mem npages mutex : Nat} {parent : Option Nat} {n : Memnode}
    {forest : Forest} {m₁ : Memory} (h : Inv P contents thread m forest pendings frees)
    (hgrown : Grown P m m₁ ⟨mem, npages * P.pageSize⟩) (hpos : 0 < npages)
    (hindex : npages - 1 ≤ maxPoolSlot)
    (hnode : HomeNode P mem npages (P.poolHeader + mutexRoom P parent) n)
    (hat : MutexAt P m₁ (mem + P.memnodeHeader) parent mutex)
    (hparent : ∀ q, parent = some q → q ∈ forest.members) (hbare : Bare pool)
    (hmutex : pool.mutex = mutex) :
    mem + P.memnodeHeader ∉ forest.members ∧
      Held P contents (m₁.setPool (mem + P.memnodeHeader)
          (pool.register (npages - 1) { n with firstAvail := n.begin, sizeAvail := n.size }))
        ((mem + P.memnodeHeader) :: forest.members)
        (Function.update pendings (mem + P.memnodeHeader) [])
        (Function.update frees (mem + P.memnodeHeader) []) := by
  have hfits := P.cleanup_fits
  have hmul : P.pageSize ≤ npages * P.pageSize := Nat.le_mul_of_pos_left _ hpos
  have hsize : 0 < npages * P.pageSize := Nat.lt_of_lt_of_le P.page_pos hmul
  have hnew : mem + P.memnodeHeader ∉ forest.members := by
    apply h.held.not_mem hgrown.apart (Nat.le_add_right _ _)
    simp only [Region.stop]
    omega
  have hlive : ∀ r ∈ m.live, r ∈ m₁.live := fun r hr => by
    rw [hgrown.live]
    exact List.mem_cons_of_mem _ hr
  have hok : PoolOk P contents m₁ (mem + P.memnodeHeader)
      (pool.register (npages - 1) { n with firstAvail := n.begin, sizeAvail := n.size }) [] [] := by
    refine PoolOk.created hbare hnode hgrown.aligned
      (Nat.dvd_add (P.word_dvd_align _) (mutexRoom_dvd parent)) (Nat.le_add_right ..) hpos hindex
      (by rw [hgrown.live]; exact List.mem_cons_self ..) fun hts hbehind => ?_
    have hwhere := hat hts
    cases parent with
    | none => simp [mutexRoom, hts]
    | some q =>
        obtain ⟨old, hold, heq⟩ := hwhere
        rw [hgrown.pools] at hold
        obtain ⟨root, hroot, hq⟩ := Forest.mem_members.mp (hparent q rfl)
        have hold' := h.mutex root hroot q hq old hold hts
        have hrootNew : root.1 = mem + P.memnodeHeader := by
          rw [hmutex, heq, hold'] at hbehind
          omega
        refine absurd (Forest.mem_members.mpr ⟨root, hroot, ?_⟩) (hrootNew ▸ hnew)
        exact List.mem_cons_self ..
  refine ⟨hnew, h.held.insert hnew ?_ (hgrown.heap h.held.heap) hlive hgrown.records
    hgrown.recordCount (hok.congr hok.live (fun _ _ => rfl) (Nat.le_refl _)) fun r hr => ?_⟩
  · simp only [Memory.setPool, hgrown.pools]
  · have hperm := pool.register_regions { n with firstAvail := n.begin, sizeAvail := n.size } hindex
    rw [hbare.regions] at hperm
    have hregion := List.mem_singleton.mp (hperm.mem_iff.mp hr)
    have hr' : r = ⟨mem, npages * P.pageSize⟩ := by
      rw [hregion, Memnode.region, hnode.addr, hnode.dealloc]
    rw [hr']
    exact hgrown.new hsize

def barePool (P : Platform) (thread mutex : Nat) : Pool :=
  { nodes := fun _ => []
    parent := none
    brother := none
    child := none
    cleanups := none
    freeCleanups := none
    mutex := mutex
    owner := if P.threadSafety then thread else 0
    stray := []
    large := [] }

theorem barePool_bare (P : Platform) (thread mutex : Nat) : Bare (barePool P thread mutex) :=
  ⟨rfl, rfl, rfl, rfl, rfl⟩

theorem Inv.link_spec {thread new mutex : Nat} {parent : Option Nat} {forest : Forest}
    {pendings' frees' : Nat → List Ref} (h : Inv P contents thread m forest pendings frees)
    (hparent : ∀ q, parent = some q → q ∈ forest.members) (hnew : new ∉ forest.members)
    (hpools : s.mem.pools = m.pools) (hplace : pool.place = (barePool P thread mutex).place)
    (hat : MutexAt P s.mem new parent mutex)
    (hheld : Held P contents (s.mem.setPool new pool) (new :: forest.members) pendings' frees') :
    Yields False
      (match parent with
        | none => .ok (Err.ok, some new, s.setPool new pool)
        | some q => do
            let s ← addChild q new (s.setPool new pool)
            .ok (Err.ok, some new, s))
      fun r : Err × Option Nat × State => ∃ pendings' frees',
        Inv P contents thread r.2.2.mem (forest.joined parent r.2.1) pendings' frees' := by
  have hlinks : pool.links = (none, none) := congrArg Prod.fst hplace
  have howner : P.threadSafety = true → pool.owner = thread := fun hts =>
    (congrArg (fun place => place.2.1) hplace).trans (if_pos hts)
  have hmutex : pool.mutex = mutex := congrArg (fun place => place.2.2) hplace
  cases parent with
  | none =>
      refine Yields.ok ⟨_, _, h.join_root hnew hheld ?_ hlinks howner
        fun hts => hmutex.trans (hat hts)⟩
      simp only [State.setPool_mem, Memory.setPool, hpools]
  | some q =>
      have hq := hparent q rfl
      obtain ⟨old, hold, -, -⟩ := h.held.pools q hq
      have hne : q ≠ new := fun heq => hnew (heq ▸ hq)
      have hold₁ : s.mem.pools q = some old := (congrFun hpools q).trans hold
      have hold₂ : (s.setPool new pool).mem.pools q = some old :=
        (Memory.setPool_of_ne _ _ hne).trans hold₁
      have hself : (s.setPool new pool).mem.pools new = some pool := Memory.setPool_self ..
      obtain ⟨s', hs', hmem'⟩ := addChild_ok hself hold₂ hne
      have hmutex' : P.threadSafety = true → pool.mutex = old.mutex := fun hts => by
        obtain ⟨old', hold', heq⟩ := hat hts
        rw [hold₁] at hold'
        cases hold'
        exact hmutex.trans heq
      simp only [hs']
      refine Yields.ok ⟨pendings', frees', ?_⟩
      rw [hmem', State.setPool_mem]
      exact h.adopt hq hold hnew hpools hlinks howner hmutex' hheld

/-- A call creates a pool, which joins the trees, or it creates none. -/
theorem create_spec {thread size : Nat} {parent : Option Nat} {forest : Forest}
    (h : Inv P contents thread s.mem forest pendings frees)
    (hparent : ∀ q, parent = some q → q ∈ forest.members) :
    Yields False (create env thread size parent s) fun r => ∃ pendings' frees',
      Inv P contents thread r.2.2.mem (forest.joined parent r.2.1) pendings' frees' := by
  unfold create
  change Yields False (if P.alignAllocation size = 0 then _ else _) _
  split
  · exact Yields.ok ⟨_, _, h⟩
  change Yields False (if P.getNpages (P.wrap (P.alignAllocation size + P.poolHeader)) - 1 >
    maxPoolSlot then _ else _) _
  generalize hnpages : P.getNpages (P.wrap (P.alignAllocation size + P.poolHeader)) = npages
  have hpos : 0 < npages := hnpages ▸ P.npages_pos _
  split
  · exact Yields.ok ⟨_, _, h⟩
  rename_i hindex
  rw [Nat.not_lt] at hindex
  have hpages : npages ≤ maxPoolSlot + 1 := by omega
  split
  · rename_i s₁ hnone
    obtain ⟨-, hlive, hpools, hrecords, hcount⟩ := memnodeAllocate_none hnone
    exact Yields.ok ⟨_, _, h.of_held (SamePlaces.of_pools hpools)
      (h.held.of_eq hlive hpools hrecords hcount)⟩
  · rename_i node s₁ hsome
    obtain ⟨mem, rfl, hgrown⟩ := memnodeAllocate_some hsome
    have hfits := P.headers_fit
    have hmul : P.pageSize ≤ npages * P.pageSize := Nat.le_mul_of_pos_left _ hpos
    have hwhole : HomeNode P mem npages 0 (newMemnode P mem (npages * P.pageSize)) :=
      HomeNode.new hpos hpages
    have hhome := hwhole.shrink (k := P.poolHeader) hpages (by omega)
    rw [Nat.zero_add] at hhome
    have hparent₁ : ∀ q, parent = some q → ∃ pool, s₁.mem.pools q = some pool := fun q hq => by
      obtain ⟨pool, hpool, -, -⟩ := h.held.pools q (hparent q hq)
      exact ⟨pool, (congrFun hgrown.pools q).trans hpool⟩
    apply (embedMutex_spec hhome hpos hpages hparent₁).bind
    intro made _ hmade
    cases made with
    | error err =>
        have hsize : 0 < npages * P.pageSize := Nat.lt_of_lt_of_le P.page_pos hmul
        have hback := h.held.release_new hgrown hsize
        exact Yields.ok ⟨_, _, h.of_held (SamePlaces.of_pools hgrown.pools) hback⟩
    | ok made =>
        obtain ⟨mutex, n⟩ := made
        obtain ⟨hnode, hat⟩ := hmade
        obtain ⟨hnew, hheld⟩ := h.insert_new hgrown hpos hindex hnode hat hparent
          (barePool_bare P thread mutex) rfl
        have hplace := (barePool P thread mutex).register_place (npages - 1)
          { n with firstAvail := n.begin, sizeAvail := n.size }
        exact h.link_spec hparent hnew hgrown.pools hplace hat hheld

end Floppix.Pools
