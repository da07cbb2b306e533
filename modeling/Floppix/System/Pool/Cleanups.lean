import Floppix.System.Pool.Blocks

/-! # Cleanup nodes in their lists

A node is taken from a list, belongs to none for a moment, and goes to the front of a
list again. The invariant of the pool is kept at each of these steps.
-/

namespace Floppix.Pools

open Layout LinkedList

variable {P : Platform} {contents : Contents} {m m' : Memory} {p : Nat} {pool pool' : Pool}
  {pending free : List Ref} {r : Ref} {c : CleanupNode}

structure Loose (P : Platform) (contents : Contents) (m : Memory) (pool : Pool)
    (listed : List Ref) (r : Ref) : Prop where
  separate : ∀ q ∈ listed, Separate P r q
  tag : TagOk contents m.recordCount r
  house : r.tag = 0 → Housed P pool r

structure SameBlocks (pool pool' : Pool) : Prop where
  nodes : pool'.nodes = pool.nodes
  stray : pool'.stray = pool.stray
  large : pool'.large = pool.large
  mutex : pool'.mutex = pool.mutex
  links : pool'.links = pool.links

theorem SameBlocks.memnodes (h : SameBlocks pool pool') : pool'.memnodes = pool.memnodes := by
  rw [Pool.memnodes, h.nodes, h.stray, Pool.memnodes]

theorem SameBlocks.regions (h : SameBlocks pool pool') : pool'.regions = pool.regions := by
  rw [Pool.regions, h.memnodes, h.large, Pool.regions]

theorem SameBlocks.housed (h : SameBlocks pool pool') : Housed P pool' r ↔ Housed P pool r := by
  rw [Housed, h.nodes, Housed]

theorem PoolOk.relist (h : PoolOk P contents m p pool pending free) (hsame : SameBlocks pool pool')
    {pending' free' : List Ref} (hlive : m'.live = m.live) (hcount : m'.recordCount = m.recordCount)
    (hpending : Chain m'.records CleanupNode.next pool'.cleanups pending')
    (hfree : Chain m'.records CleanupNode.next pool'.freeCleanups free')
    (hrecords : (pending' ++ free').Pairwise (Separate P))
    (hlisted : ∀ q ∈ pending' ++ free', q ∈ pending ++ free ∨
      TagOk contents m.recordCount q ∧ (q.tag = 0 → Housed P pool q)) :
    PoolOk P contents m' p pool' pending' free' where
  slots := by rw [hsame.nodes]; exact h.slots
  strays := by rw [hsame.stray]; exact h.strays
  large := by rw [hsame.large]; exact h.large
  live := by rw [hsame.regions, hlive]; exact h.live
  nodup := by rw [hsame.regions]; exact h.nodup
  header := by rw [hsame.memnodes, hsame.mutex]; exact h.header
  pendingChain := hpending
  freeChain := hfree
  records := hrecords
  tags q hq := by
    rw [hcount]
    exact (hlisted q hq).elim (h.tags q) And.left
  houses q hq ht := by
    rw [hsame.housed]
    exact (hlisted q hq).elim (fun hq => h.houses q hq ht) fun hq => hq.2 ht

/-! ## Taking a node -/

theorem pairwise_head {listed : List Ref} (h : (r :: listed).Pairwise (Separate P)) :
    (∀ q ∈ listed, Separate P r q) ∧ listed.Pairwise (Separate P) := List.pairwise_cons.mp h

theorem PoolOk.pop (h : PoolOk P contents m p pool pending free) (hr : pool.freeCleanups = some r)
    (hc : m.records r = some c) : ∃ rest, free = r :: rest ∧
      PoolOk P contents m p { pool with freeCleanups := c.next } pending rest ∧
      Loose P contents m pool (pending ++ rest) r := by
  have hchain := h.freeChain
  rw [hr] at hchain
  obtain ⟨c', rest, rfl, hc', hrest⟩ := hchain.uncons
  rw [hc] at hc'
  cases hc'
  have hperm : (pending ++ r :: rest).Perm (r :: (pending ++ rest)) := List.perm_middle
  obtain ⟨hsep, hrecords⟩ := pairwise_head
    ((hperm.pairwise_iff fun h => Separate.symm h).mp h.records)
  have hmem : r ∈ pending ++ r :: rest := by simp
  have hsame : SameBlocks pool { pool with freeCleanups := c.next } := ⟨rfl, rfl, rfl, rfl, rfl⟩
  refine ⟨rest, rfl, h.relist hsame rfl rfl h.pendingChain hrest hrecords
    fun q hq => Or.inl ?_, hsep, h.tags r hmem, h.houses r hmem⟩
  exact hperm.mem_iff.mpr (List.mem_cons_of_mem r hq)

theorem PoolOk.shift {rest : List Ref} (h : PoolOk P contents m p pool (r :: rest) free)
    (hc : m.records r = some c) :
    PoolOk P contents m p { pool with cleanups := c.next } rest free ∧
      Loose P contents m pool (rest ++ free) r := by
  have hchain := h.pendingChain
  obtain ⟨-, c', hc', hrest⟩ := hchain
  rw [hc] at hc'
  cases hc'
  obtain ⟨hsep, hrecords⟩ := pairwise_head h.records
  have hmem : r ∈ r :: rest ++ free := by simp
  have hsame : SameBlocks pool { pool with cleanups := c.next } := ⟨rfl, rfl, rfl, rfl, rfl⟩
  exact ⟨h.relist hsame rfl rfl hrest h.freeChain hrecords
    fun q hq => Or.inl (List.mem_cons_of_mem r hq), hsep, h.tags r hmem, h.houses r hmem⟩

theorem PoolOk.unlink {us vs : List Ref} {q : Ref} {cq : CleanupNode}
    (h : PoolOk P contents m p pool (us ++ q :: r :: vs) free) (hc : m.records r = some c) :
    PoolOk P contents (m.setRecord P q { cq with next := c.next }) p pool (us ++ q :: vs) free ∧
      Loose P contents m pool (us ++ q :: vs ++ free) r := by
  have hperm : (us ++ q :: r :: vs ++ free).Perm (r :: (us ++ q :: vs ++ free)) := by
    have : us ++ q :: r :: vs = (us ++ [q]) ++ r :: vs := by simp
    rw [this, List.append_assoc, List.cons_append]
    exact List.perm_middle.trans (by simp)
  have hall := (hperm.pairwise_iff fun h => Separate.symm h).mp h.records
  obtain ⟨hsep, hrecords⟩ := pairwise_head hall
  have hmem : r ∈ us ++ q :: r :: vs ++ free := by simp
  have hq : (us ++ q :: vs ++ free).Perm (q :: (us ++ vs ++ free)) := by
    rw [List.append_assoc, List.cons_append, List.append_assoc]
    exact List.perm_middle
  obtain ⟨hqsep, -⟩ := pairwise_head ((hq.pairwise_iff fun h => Separate.symm h).mp hrecords)
  have hsame : ∀ a ∈ us ++ vs ++ free, (m.setRecord P q { cq with next := c.next }).records a =
      m.records a := fun a ha => m.setRecord_of_separate _ (hqsep a ha)
  refine ⟨h.relist ⟨rfl, rfl, rfl, rfl, rfl⟩ rfl rfl ?_ ?_ hrecords fun x hx => Or.inl ?_,
    hsep, h.tags r hmem, h.houses r hmem⟩
  · exact h.pendingChain.unlink hc (m.setRecord_self _ _) rfl fun a ha =>
      hsame a (List.mem_append_left _ ha)
  · exact h.freeChain.congr_cells fun a ha => hsame a (List.mem_append_right _ ha)
  · exact hperm.mem_iff.mpr (List.mem_cons_of_mem r hx)

/-! ## Putting a node in front -/

theorem Loose.setRecord {listed : List Ref} (h : Loose P contents m pool listed r)
    (c : CleanupNode) {q : Ref} (hq : q ∈ listed) :
    (m.setRecord P r c).records q = m.records q :=
  m.setRecord_of_separate c (h.separate q hq)

theorem PoolOk.reserve (h : PoolOk P contents m p pool pending free)
    (hr : Loose P contents m pool (pending ++ free) r) (c : CleanupNode) :
    PoolOk P contents (m.setRecord P r { c with next := pool.freeCleanups }) p
      { pool with freeCleanups := some r } pending (r :: free) := by
  have hperm : (pending ++ r :: free).Perm (r :: (pending ++ free)) := List.perm_middle
  have hsame : SameBlocks pool { pool with freeCleanups := some r } := ⟨rfl, rfl, rfl, rfl, rfl⟩
  refine h.relist hsame rfl rfl ?_ ?_ ?_ ?_
  · exact h.pendingChain.congr_cells fun q hq => hr.setRecord _ (List.mem_append_left _ hq)
  · refine .cons (m.setRecord_self _ _) (h.freeChain.congr_cells fun q hq => ?_)
    exact hr.setRecord _ (List.mem_append_right _ hq)
  · exact (hperm.pairwise_iff fun h => Separate.symm h).mpr
      (List.pairwise_cons.mpr ⟨hr.separate, h.records⟩)
  · intro q hq
    rcases List.mem_cons.mp (hperm.mem_iff.mp hq) with rfl | hq
    · exact Or.inr ⟨hr.tag, hr.house⟩
    · exact Or.inl hq

theorem PoolOk.push (h : PoolOk P contents m p pool pending free)
    (hr : Loose P contents m pool (pending ++ free) r) (data : Nat) (handler : Handler) :
    PoolOk P contents (m.setRecord P r ⟨pool.cleanups, data, handler⟩) p
      { pool with cleanups := some r } (r :: pending) free := by
  have hsame : SameBlocks pool { pool with cleanups := some r } := ⟨rfl, rfl, rfl, rfl, rfl⟩
  refine h.relist hsame rfl rfl ?_ ?_ ?_ ?_
  · refine .cons (m.setRecord_self _ _) (h.pendingChain.congr_cells fun q hq => ?_)
    exact hr.setRecord _ (List.mem_append_left _ hq)
  · exact h.freeChain.congr_cells fun q hq => hr.setRecord _ (List.mem_append_right _ hq)
  · exact List.pairwise_cons.mpr ⟨hr.separate, h.records⟩
  · intro q hq
    rcases List.mem_cons.mp hq with rfl | hq
    · exact Or.inr ⟨hr.tag, hr.house⟩
    · exact Or.inl hq

theorem freeData_cons (m : Memory) (r : Ref) (rs : List Ref) :
    freeData m (r :: rs) = freeData m [r] ++ freeData m rs := by
  simp only [freeData, List.filterMap_cons, List.filterMap_nil]
  split <;> simp [*]

theorem freeData_single (hc : m.records r = some c) :
    freeData m [r] = if c.handler = .free then [c.data] else [] := by
  by_cases hh : c.handler = .free <;> simp [freeData, hc, hh]

theorem Freed.push_user (h : Freed m pool pending) {id data : Nat}
    (hrec : ∀ q ∈ pending, m'.records q = m.records q)
    (hr : m'.records r = some ⟨pool.cleanups, data, .user id⟩) (hlarge : pool'.large = pool.large) :
    Freed m' pool' (r :: pending) := by
  have hsingle : freeData m' [r] = [] := by rw [freeData_single hr]; rfl
  have hrest := h.congr hrec (show ∀ b ∈ pool.large, b ∈ pool'.large from fun b hb => hlarge ▸ hb)
  rw [Freed, freeData_cons, hsingle, List.nil_append]
  exact hrest

theorem Freed.push_free (h : Freed m pool pending) {data : Nat}
    (hrec : ∀ q ∈ pending, m'.records q = m.records q)
    (hr : m'.records r = some ⟨pool.cleanups, data, .free⟩) (hlarge : pool'.large = pool.large)
    (hnew : data ∉ freeData m pending) (hdata : ∃ b ∈ pool.large, b.addr = data) :
    Freed m' pool' (r :: pending) := by
  have hsingle : freeData m' [r] = [data] := by rw [freeData_single hr]; rfl
  have hrest : freeData m' pending = freeData m pending := freeData_congr hrec
  rw [Freed, freeData_cons, hsingle, hrest, hlarge]
  refine ⟨List.nodup_cons.mpr ⟨hnew, h.1⟩, fun d hd => ?_⟩
  rcases List.mem_cons.mp hd with rfl | hd
  · exact hdata
  · exact h.2 d hd

/-! ## Freeing a large block -/

def Pool.forget (pool : Pool) (d : Nat) : Pool :=
  { pool with large := pool.large.filter fun b => b.addr ≠ d }

/-- Different stretches of memory start at different addresses. -/
theorem addr_ne (hheap : ∀ r ∈ m.live, ∀ q ∈ m.live, r ≠ q → Region.Apart r q) {x y : Region}
    (hx : x ∈ m.live) (hxpos : 0 < x.size) (hy : y ∈ m.live) (hypos : 0 < y.size) (hne : x ≠ y) :
    x.addr ≠ y.addr := by
  intro heq
  have hapart := hheap x hx y hy hne
  simp only [Region.Apart, Region.stop] at hapart
  omega

theorem PoolOk.forget (h : PoolOk P contents m p pool pending free)
    (hheap : ∀ r ∈ m.live, ∀ q ∈ m.live, r ≠ q → Region.Apart r q) {b : Block}
    (hb : b ∈ pool.large) (hlive : m'.live = (m.release b.addr).live)
    (hrecords : m'.records = m.records) (hcount : m'.recordCount = m.recordCount) :
    PoolOk P contents m' p (pool.forget b.addr) pending free := by
  have hblive := h.live _ (region_mem_of_large hb)
  have hbpos : 0 < b.region.size := (h.large b hb).nonempty
  have hstay : ∀ x ∈ pool.regions, x ≠ b.region → x ∈ m'.live := by
    intro x hx hne
    have haddr : x.addr ≠ b.addr :=
      addr_ne hheap (h.live x hx) (h.region_pos hx) hblive hbpos hne
    rw [hlive]
    exact List.mem_filter.mpr ⟨h.live x hx, by simpa using haddr⟩
  have hdisjoint := (List.nodup_append.mp h.nodup).2.2
  constructor
  · exact h.slots
  · exact h.strays
  · exact fun b' hb' => h.large b' (List.mem_filter.mp hb').1
  · intro x hx
    rcases List.mem_append.mp hx with hx | hx
    · apply hstay x (List.mem_append_left _ hx)
      exact hdisjoint x hx _ (List.mem_map_of_mem hb)
    · obtain ⟨b', hb', rfl⟩ := List.mem_map.mp hx
      obtain ⟨hmem, hne⟩ := List.mem_filter.mp hb'
      apply hstay _ (region_mem_of_large hmem)
      intro heq
      simp only [ne_eq, decide_not, Bool.not_eq_true', decide_eq_false_iff_not] at hne
      exact hne (congrArg Region.addr heq)
  · have hsub : (pool.forget b.addr).large.Sublist pool.large := List.filter_sublist
    exact h.nodup.sublist ((hsub.map Block.region).append_left _)
  · exact h.header
  · rw [hrecords]
    exact h.pendingChain
  · rw [hrecords]
    exact h.freeChain
  · exact h.records
  · rw [hcount]
    exact h.tags
  · exact h.houses

end Floppix.Pools
