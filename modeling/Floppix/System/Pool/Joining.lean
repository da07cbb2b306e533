import Floppix.System.Pool.Clearing

/-! # A pool joins the others

What is needed of a new pool for the invariant of all: memory that nobody had, and its
place in the trees.
-/

namespace Floppix.Pools

open Layout LinkedList Kinship

variable {P : Platform} {contents : Contents} {m m' : Memory} {p q : Nat} {pool pool' : Pool}
  {pending free : List Ref} {ps : List Nat} {pendings frees : Nat → List Ref} {thread : Nat}
  {forest : Forest}

/-! ## One more pool -/

theorem Held.insert (h : Held P contents m ps pendings frees) (hq : q ∉ ps)
    (hpools : m'.pools = Function.update m.pools q (some pool))
    (hheap : ∀ r ∈ m'.live, ∀ x ∈ m'.live, r ≠ x → Region.Apart r x)
    (hlive : ∀ r ∈ m.live, r ∈ m'.live) (hrecords : m'.records = m.records)
    (hcount : m'.recordCount = m.recordCount) (hok : PoolOk P contents m' q pool [] [])
    (hnew : ∀ r ∈ pool.regions, r ∉ m.live) :
    Held P contents m' (q :: ps) (Function.update pendings q []) (Function.update frees q []) := by
  have hself : m'.pools q = some pool := by rw [hpools, Function.update_self]
  have hne : ∀ p ∈ ps, p ≠ q := fun p hp heq => hq (heq ▸ hp)
  have hget : ∀ p ∈ ps, m'.pools p = m.pools p := fun p hp => by
    rw [hpools, Function.update_of_ne (hne p hp)]
  have hlists : ∀ p ∈ ps, Function.update pendings q [] p = pendings p ∧
      Function.update frees q [] p = frees p := fun p hp =>
    ⟨Function.update_of_ne (hne p hp) _ _, Function.update_of_ne (hne p hp) _ _⟩
  have hdisjoint : ∀ p ∈ ps, ∀ poolp, m.pools p = some poolp →
      poolp.regions.Disjoint pool.regions := fun p hp poolp hpoolp r hr hr' =>
    hnew r hr' ((h.poolOk hp hpoolp).live r hr)
  constructor
  · exact hheap
  · intro p hp
    rcases List.mem_cons.mp hp with rfl | hp
    · rw [Function.update_self, Function.update_self]
      exact ⟨pool, hself, hok, List.nodup_nil, fun d hd => absurd hd List.not_mem_nil⟩
    · obtain ⟨poolp, hpoolp, hokp, hfreed⟩ := h.pools p hp
      obtain ⟨h₁, h₂⟩ := hlists p hp
      rw [hget p hp, h₁, h₂]
      exact ⟨poolp, hpoolp, hokp.congr (fun r hr => hlive r (hokp.live r hr))
        (fun r _ => congrFun hrecords r) (Nat.le_of_eq hcount.symm),
        hfreed.congr (fun r _ => congrFun hrecords r) fun b hb => hb⟩
  · intro p₁ hp₁ p₂ hp₂ hne₁₂ pool₁ pool₂ h₁ h₂
    by_cases heq₁ : p₁ = q
    · subst heq₁
      have hmem := (List.mem_cons.mp hp₂).resolve_left (Ne.symm hne₁₂)
      rw [hself] at h₁
      cases h₁
      rw [hget p₂ hmem] at h₂
      exact fun r hr hr' => hdisjoint p₂ hmem pool₂ h₂ hr' hr
    · have hmem₁ := (List.mem_cons.mp hp₁).resolve_left heq₁
      rw [hget p₁ hmem₁] at h₁
      by_cases heq₂ : p₂ = q
      · subst heq₂
        rw [hself] at h₂
        cases h₂
        exact hdisjoint p₁ hmem₁ pool₁ h₁
      · have hmem₂ := (List.mem_cons.mp hp₂).resolve_left heq₂
        rw [hget p₂ hmem₂] at h₂
        exact h.regions p₁ hmem₁ p₂ hmem₂ hne₁₂ pool₁ pool₂ h₁ h₂
  · intro p₁ hp₁ p₂ hp₂ hne₁₂
    by_cases heq₁ : p₁ = q
    · subst heq₁
      rw [Function.update_self, Function.update_self]
      exact List.disjoint_nil_left _
    by_cases heq₂ : p₂ = q
    · subst heq₂
      rw [Function.update_self p₂, Function.update_self p₂]
      exact List.disjoint_nil_right _
    have hmem₁ := (List.mem_cons.mp hp₁).resolve_left heq₁
    have hmem₂ := (List.mem_cons.mp hp₂).resolve_left heq₂
    obtain ⟨h₁, h₂⟩ := hlists p₁ hmem₁
    obtain ⟨h₃, h₄⟩ := hlists p₂ hmem₂
    rw [h₁, h₂, h₃, h₄]
    exact h.listed p₁ hmem₁ p₂ hmem₂ hne₁₂

/-! ## New links -/

structure SameStore (pool pool' : Pool) : Prop where
  nodes : pool'.nodes = pool.nodes
  stray : pool'.stray = pool.stray
  large : pool'.large = pool.large
  mutex : pool'.mutex = pool.mutex
  cleanups : pool'.cleanups = pool.cleanups
  freeCleanups : pool'.freeCleanups = pool.freeCleanups

theorem SameStore.refl (pool : Pool) : SameStore pool pool := ⟨rfl, rfl, rfl, rfl, rfl, rfl⟩

theorem SameStore.regions (h : SameStore pool pool') : pool'.regions = pool.regions := by
  rw [Pool.regions, Pool.memnodes, h.nodes, h.stray, h.large, Pool.regions, Pool.memnodes]

theorem PoolOk.of_sameStore (h : PoolOk P contents m p pool pending free)
    (hsame : SameStore pool pool') : PoolOk P contents m p pool' pending free where
  slots := by rw [hsame.nodes]; exact h.slots
  strays := by rw [hsame.stray]; exact h.strays
  large := by rw [hsame.large]; exact h.large
  live := by rw [hsame.regions]; exact h.live
  nodup := by rw [hsame.regions]; exact h.nodup
  header := by
    rw [Pool.memnodes, hsame.nodes, hsame.stray, hsame.mutex]
    exact h.header
  pendingChain := by rw [hsame.cleanups]; exact h.pendingChain
  freeChain := by rw [hsame.freeCleanups]; exact h.freeChain
  records := h.records
  tags := h.tags
  houses r hr ht := by
    rw [Housed, hsame.nodes]
    exact h.houses r hr ht

theorem Held.relink (h : Held P contents m ps pendings frees) (hlive : m'.live = m.live)
    (hrecords : m'.records = m.records) (hcount : m'.recordCount = m.recordCount)
    (hpools : ∀ p ∈ ps, ∀ pool, m.pools p = some pool →
      ∃ pool', m'.pools p = some pool' ∧ SameStore pool pool') :
    Held P contents m' ps pendings frees := by
  have hback : ∀ p ∈ ps, ∀ pool', m'.pools p = some pool' →
      ∃ pool, m.pools p = some pool ∧ pool'.regions = pool.regions := by
    intro p hp pool' hpool'
    obtain ⟨pool, hpool, -, -⟩ := h.pools p hp
    obtain ⟨pool'', hpool'', hsame⟩ := hpools p hp pool hpool
    rw [hpool'] at hpool''
    cases hpool''
    exact ⟨pool, hpool, hsame.regions⟩
  constructor
  · rw [hlive]
    exact h.heap
  · intro p hp
    obtain ⟨pool, hpool, hok, hfreed⟩ := h.pools p hp
    obtain ⟨pool', hpool', hsame⟩ := hpools p hp pool hpool
    refine ⟨pool', hpool', ?_, hfreed.congr (fun r _ => congrFun hrecords r) fun b hb => ?_⟩
    · exact (hok.of_sameStore hsame).congr
        (fun r hr => hlive ▸ hok.live r (hsame.regions ▸ hr)) (fun r _ => congrFun hrecords r)
        (Nat.le_of_eq hcount.symm)
    · rw [hsame.large]
      exact hb
  · intro p₁ hp₁ p₂ hp₂ hne pool₁ pool₂ h₁ h₂
    obtain ⟨pool₁', h₁', hr₁⟩ := hback p₁ hp₁ pool₁ h₁
    obtain ⟨pool₂', h₂', hr₂⟩ := hback p₂ hp₂ pool₂ h₂
    rw [hr₁, hr₂]
    exact h.regions p₁ hp₁ p₂ hp₂ hne pool₁' pool₂' h₁' h₂'
  · exact h.listed

/-! ## The trees -/

/-- A pool lies in one of its own memnodes. -/
theorem PoolOk.home (h : PoolOk P contents m p pool pending free) :
    ∃ n ∈ pool.memnodes, n.addr + P.memnodeHeader = p ∧ n.addr ≤ p ∧ p < n.region.stop := by
  obtain ⟨n, hn, hp, -⟩ := h.header
  have hfits := P.cleanup_fits
  have hpage : P.pageSize ≤ n.deallocSize := by
    rcases mem_memnodes.mp hn with ⟨i, -, hi⟩ | hs
    · rw [(h.slots i n hi).2.1]
      exact Nat.le_mul_of_pos_left _ (Nat.succ_pos i)
    · rw [(h.strays n hs).1]
      exact Nat.le_mul_of_pos_left _ (by decide)
  refine ⟨n, hn, hp.symm, by omega, ?_⟩
  simp only [Memnode.region, Region.stop]
  omega

theorem Held.not_mem (h : Held P contents m ps pendings frees) {r : Region} {a : Nat}
    (hnew : ∀ x ∈ m.live, Region.Apart r x) (hlo : r.addr ≤ a) (hhi : a < r.stop) : a ∉ ps := by
  intro hmem
  obtain ⟨pool, -, hok, -⟩ := h.pools a hmem
  obtain ⟨n, hn, -, hnlo, hnhi⟩ := hok.home
  have hapart := hnew n.region (hok.live _ (region_mem_of_memnode hn))
  simp only [Region.Apart, Memnode.region] at hapart hnhi
  omega

theorem Inv.of_trees {forest' : Forest} {pendings' frees' : Nat → List Ref}
    (h : Inv P contents thread m forest pendings frees) (htrees : forest' ⊆ forest)
    (hnodup : forest'.members.Nodup) (hplaces : SamePlaces m m')
    (hheld : Held P contents m' forest'.members pendings' frees') :
    Inv P contents thread m' forest' pendings' frees' where
  held := hheld
  nodup := hnodup
  linked root hroot := by
    rw [hplaces.links]
    exact h.linked root (htrees hroot)
  owner p hp pool' hpool' hts := by
    obtain ⟨root, hroot, hp⟩ := Forest.mem_members.mp hp
    obtain ⟨pool, hpool⟩ := (hplaces.some_iff p).mp ⟨pool', hpool'⟩
    rw [hplaces.owner hpool hpool']
    exact h.owner p (Forest.mem_members.mpr ⟨root, htrees hroot, hp⟩) pool hpool hts
  mutex root hroot p hp pool' hpool' hts := by
    obtain ⟨pool, hpool⟩ := (hplaces.some_iff p).mp ⟨pool', hpool'⟩
    rw [hplaces.mutex hpool hpool']
    exact h.mutex root (htrees hroot) p hp pool hpool hts

theorem Inv.of_held {pendings' frees' : Nat → List Ref}
    (h : Inv P contents thread m forest pendings frees) (hplaces : SamePlaces m m')
    (hheld : Held P contents m' forest.members pendings' frees') :
    Inv P contents thread m' forest pendings' frees' :=
  h.of_trees (List.Subset.refl _) h.nodup hplaces hheld

/-- The links of the pools that are in use lead to pools in use. -/
theorem Inv.closed (h : Inv P contents thread m forest pendings frees) :
    Closed m forest.members := by
  intro p hp q hq
  obtain ⟨root, hroot, hp⟩ := Forest.mem_members.mp hp
  exact Forest.mem_members.mpr ⟨root, hroot, (h.linked root hroot).points_mem hp hq⟩

theorem Inv.join_root {new : Nat} {pendings' frees' : Nat → List Ref}
    (h : Inv P contents thread m forest pendings frees) (hnew : new ∉ forest.members)
    (hheld : Held P contents m' (new :: forest.members) pendings' frees')
    (hpools : m'.pools = Function.update m.pools new (some pool))
    (hlinks : pool.links = (none, none)) (howner : P.threadSafety = true → pool.owner = thread)
    (hmutex : P.threadSafety = true → pool.mutex = new + P.poolHeader) :
    Inv P contents thread m' (forest.join none new) pendings' frees' := by
  have hself : m'.pools new = some pool := by rw [hpools, Function.update_self]
  have hget : ∀ p ∈ forest.members, m'.pools p = m.pools p := fun p hp => by
    have hne : p ≠ new := fun heq => hnew (heq ▸ hp)
    rw [hpools, Function.update_of_ne hne]
  constructor
  · exact hheld
  · exact List.nodup_cons.mpr ⟨hnew, h.nodup⟩
  · intro root hroot
    rcases List.mem_cons.mp hroot with rfl | hroot
    · refine ⟨rfl, none, none, ?_, rfl, rfl⟩
      rw [Memory.links, hself, Option.map_some, hlinks]
    · apply (h.linked root hroot).congr
      intro a ha
      rw [Memory.links, Memory.links, hget a (Forest.mem_members.mpr ⟨root, hroot, ha⟩)]
  · intro p hp pool' hpool' hts
    rcases List.mem_cons.mp hp with rfl | hp
    · rw [hself] at hpool'
      cases hpool'
      exact howner hts
    · exact h.owner p hp pool' (hget p hp ▸ hpool') hts
  · intro root hroot p hp pool' hpool' hts
    rcases List.mem_cons.mp hroot with rfl | hroot
    · cases List.mem_singleton.mp (show p ∈ [new] from hp)
      rw [hself] at hpool'
      cases hpool'
      exact hmutex hts
    · have hmem := Forest.mem_members.mpr ⟨root, hroot, hp⟩
      exact h.mutex root hroot p hp pool' (hget p hmem ▸ hpool') hts

structure Adopted (P : Platform) (thread : Nat) (m m' : Memory) (q new : Nat) (old : Pool) :
    Prop where
  parent : m'.links q = some (some new, old.brother)
  child : m'.links new = some (none, old.child)
  others : ∀ p, p ≠ q → p ≠ new → m'.links p = m.links p
  owner : ∀ pool, m'.pools new = some pool → P.threadSafety = true → pool.owner = thread
  mutex : ∀ pool, m'.pools new = some pool → P.threadSafety = true → pool.mutex = old.mutex
  same : ∀ p, p ≠ new → ∀ pool', m'.pools p = some pool' →
    ∃ pool, m.pools p = some pool ∧ pool'.owner = pool.owner ∧ pool'.mutex = pool.mutex

theorem Inv.join_child {new : Nat} {pendings' frees' : Nat → List Ref} {old : Pool}
    (h : Inv P contents thread m forest pendings frees) (hq : q ∈ forest.members)
    (hold : m.pools q = some old) (hnew : new ∉ forest.members)
    (hheld : Held P contents m' (new :: forest.members) pendings' frees')
    (hadopted : Adopted P thread m m' q new old) :
    Inv P contents thread m' (forest.join (some q) new) pendings' frees' := by
  have hperm : (forest.join (some q) new).members.Perm (new :: forest.members) :=
    Forest.addChild_perm h.nodup hq
  have hnot : ∀ root ∈ forest, new ∉ (Forest.tree root).members := fun root hroot hmem =>
    hnew (Forest.mem_members.mpr ⟨root, hroot, hmem⟩)
  constructor
  · exact hheld.subset hperm.subset
  · exact hperm.nodup_iff.mpr (List.nodup_cons.mpr ⟨hnew, h.nodup⟩)
  · intro root' hroot'
    obtain ⟨root, hroot, rfl⟩ := List.mem_map.mp hroot'
    rw [Forest.tree_addChild]
    refine (h.linked root hroot).addChild ?_ (hnot root hroot) ?_ hadopted.parent
      hadopted.child hadopted.others
    · exact (List.nodup_flatMap.mp h.nodup).1 root hroot
    · rw [Memory.links, hold]
      rfl
  · intro p hp pool' hpool' hts
    by_cases hpn : p = new
    · subst hpn
      exact hadopted.owner pool' hpool' hts
    · obtain ⟨pool, hpool, howner, -⟩ := hadopted.same p hpn pool' hpool'
      have hmem := (List.mem_cons.mp (hperm.subset hp)).resolve_left hpn
      rw [howner]
      exact h.owner p hmem pool hpool hts
  · intro root' hroot' p hp pool' hpool' hts
    obtain ⟨root, hroot, rfl⟩ := List.mem_map.mp hroot'
    rw [Forest.tree_addChild, Family.mem_addChild] at hp
    by_cases hpn : p = new
    · subst hpn
      have hparent := (hp.resolve_left (hnot root hroot)).2
      rw [hadopted.mutex pool' hpool' hts]
      exact h.mutex root hroot q hparent old hold hts
    · obtain ⟨pool, hpool, -, hmutex⟩ := hadopted.same p hpn pool' hpool'
      rw [hmutex]
      exact h.mutex root hroot p (hp.resolve_right fun hp => hpn hp.1) pool hpool hts

theorem Memory.setPool_comm (m : Memory) {p q : Nat} (pool pool' : Pool) (h : p ≠ q) :
    (m.setPool p pool).setPool q pool' = (m.setPool q pool').setPool p pool := by
  simp only [Memory.setPool, Function.update_comm h]

theorem Inv.adopt {new : Nat} {m₁ : Memory} {old : Pool}
    {pendings' frees' : Nat → List Ref} (h : Inv P contents thread m forest pendings frees)
    (hq : q ∈ forest.members) (hold : m.pools q = some old) (hnew : new ∉ forest.members)
    (hpools : m₁.pools = m.pools) (hlinks : pool.links = (none, none))
    (howner : P.threadSafety = true → pool.owner = thread)
    (hmutex : P.threadSafety = true → pool.mutex = old.mutex)
    (hheld : Held P contents (m₁.setPool new pool) (new :: forest.members) pendings' frees') :
    Inv P contents thread
      (((m₁.setPool new pool).setPool q { old with child := some new }).setPool new
        { pool with parent := some q, brother := old.child })
      (forest.join (some q) new) pendings' frees' := by
  have hne : q ≠ new := fun heq => hnew (heq ▸ hq)
  have hcases : ∀ p, p ≠ q → p ≠ new →
      (((m₁.setPool new pool).setPool q { old with child := some new }).setPool new
        { pool with parent := some q, brother := old.child }).pools p = m.pools p := by
    intro p hpq hpn
    rw [Memory.setPool_of_ne _ _ hpn, Memory.setPool_of_ne _ _ hpq, Memory.setPool_of_ne _ _ hpn,
      hpools]
  have hparent : (((m₁.setPool new pool).setPool q { old with child := some new }).setPool new
      { pool with parent := some q, brother := old.child }).pools q =
        some { old with child := some new } := by
    rw [Memory.setPool_of_ne _ _ hne, Memory.setPool_self]
  refine h.join_child hq hold hnew (hheld.relink rfl rfl rfl fun p _ poolp hpoolp => ?_) ⟨?_, ?_,
    fun p hpq hpn => ?_, fun pool' hpool' hts => ?_, fun pool' hpool' hts => ?_,
    fun p hpn pool' hpool' => ?_⟩
  · by_cases hpn : p = new
    · subst hpn
      rw [Memory.setPool_self] at hpoolp
      cases hpoolp
      exact ⟨_, Memory.setPool_self .., ⟨rfl, rfl, rfl, rfl, rfl, rfl⟩⟩
    rw [Memory.setPool_of_ne _ _ hpn, hpools] at hpoolp
    by_cases hpq : p = q
    · subst hpq
      rw [hold] at hpoolp
      cases hpoolp
      exact ⟨_, hparent, ⟨rfl, rfl, rfl, rfl, rfl, rfl⟩⟩
    · exact ⟨poolp, (hcases p hpq hpn).trans hpoolp, SameStore.refl poolp⟩
  · rw [Memory.links, hparent]
    rfl
  · rw [Memory.links, Memory.setPool_self, Option.map_some, Pool.links]
    rw [Pool.links, Prod.mk.injEq] at hlinks
    rw [hlinks.1]
  · rw [Memory.links, hcases p hpq hpn, Memory.links]
  · rw [Memory.setPool_self] at hpool'
    cases hpool'
    exact howner hts
  · rw [Memory.setPool_self] at hpool'
    cases hpool'
    exact hmutex hts
  · by_cases hpq : p = q
    · subst hpq
      rw [hparent] at hpool'
      cases hpool'
      exact ⟨old, hold, rfl, rfl⟩
    · rw [hcases p hpq hpn] at hpool'
      exact ⟨pool', hpool', rfl, rfl⟩

/-- Memory that is not in use is given back. -/
theorem Held.of_live (h : Held P contents m ps pendings frees)
    (hheap : ∀ r ∈ m'.live, ∀ x ∈ m'.live, r ≠ x → Region.Apart r x)
    (hlive : ∀ p ∈ ps, ∀ pool, m.pools p = some pool → ∀ r ∈ pool.regions, r ∈ m'.live)
    (hpools : m'.pools = m.pools) (hrecords : m'.records = m.records)
    (hcount : m'.recordCount = m.recordCount) : Held P contents m' ps pendings frees where
  heap := hheap
  pools p hp := by
    obtain ⟨pool, hpool, hok, hfreed⟩ := h.pools p hp
    rw [hpools]
    exact ⟨pool, hpool, hok.congr (hlive p hp pool hpool) (fun r _ => congrFun hrecords r)
      (Nat.le_of_eq hcount.symm), hfreed.congr (fun r _ => congrFun hrecords r) fun b hb => hb⟩
  regions := hpools ▸ h.regions
  listed := h.listed

/-- A new memnode is given back at once. -/
theorem Held.release_new {r : Region} {m₁ : Memory} (h : Held P contents m ps pendings frees)
    (hgrown : Grown P m m₁ r) (hr : 0 < r.size) :
    Held P contents (m₁.release r.addr) ps pendings frees := by
  have hsub : ∀ x ∈ (m₁.release r.addr).live, x ∈ m₁.live := fun x hx => (List.mem_filter.mp hx).1
  refine h.of_live (fun x hx y hy => hgrown.heap h.heap x (hsub x hx) y (hsub y hy))
    (fun p hp pool hpool x hx => List.mem_filter.mpr ⟨?_, ?_⟩) hgrown.pools hgrown.records
    hgrown.recordCount
  · rw [hgrown.live]
    exact List.mem_cons_of_mem _ ((h.poolOk hp hpool).live x hx)
  · have hapart := hgrown.apart x ((h.poolOk hp hpool).live x hx)
    have hpos := (h.poolOk hp hpool).region_pos hx
    have hne : x.addr ≠ r.addr := by
      simp only [Region.Apart, Region.stop] at hapart
      omega
    simpa using hne

end Floppix.Pools
